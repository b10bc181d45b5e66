import Packrat.Proofs.Calls
import Packrat.Proofs.Notes
import Packrat.Proofs.Plain

/-!
# The failures of a pattern

A pattern is matched as plain evaluation says, and notes no failures but those that plain evaluation tells of, given
that this holds of the calls inside. If the calls inside note all of these failures, the pattern does so as well,
unless it is a lookahead, which has none to tell of. What is known of the entries of the memo table is kept on the way:
each of them is the plain match of its rule, and the failures of some rules have all been noted.
-/

namespace Packrat

open Session Pattern

def Match.stop? (m : Match) : Option Nat := if m.success then some m.stop else none

namespace Match

variable {m child : Match}

theorem stop?_of_success (h : m.success = true) : m.stop? = some m.stop := if_pos h

theorem stop?_of_failure (h : m.success = false) : m.stop? = none := if_neg (by simp [h])

@[simp] theorem stop?_fail (position : Nat) : (fail position).stop? = none := rfl

@[simp] theorem stop?_empty (position : Nat) : (empty position).stop? = some position := rfl

@[simp] theorem stop?_stamp (origin : Origin) : (m.stamp origin).stop? = m.stop? := rfl

@[simp] theorem stop?_withStatus (status : Status) : (m.withStatus status).stop? = m.stop? := rfl

theorem stop?_push (h : m.success = true) : (m.push child).stop? = some child.stop := if_pos h

theorem isSome_stop? : m.stop?.isSome = m.success := by
  unfold stop?
  split <;> simp_all

end Match

namespace Session

/-- A failure has been noted that is no less far than `position`. -/
def Reaches (s : Session) (position : Nat) : Prop :=
  ∃ furthest, s.furthestFailure? = some furthest ∧ position ≤ furthest

/-- From `s` to `t` no failures have been noted but some of the given ones; and all of them, if `loud` holds. -/
structure Noted (loud : Prop) (failures : List Nat) (s t : Session) : Prop where
  input_eq : t.input = s.input
  only : ∀ furthest, t.furthestFailure? = some furthest → s.furthestFailure? = some furthest ∨ furthest ∈ failures
  kept : ∀ position, s.Reaches position → t.Reaches position
  all : loud → ∀ position ∈ failures, t.Reaches position

variable {loud loud' : Prop} {failures failures' : List Nat} {s t u : Session} {position : Nat}

theorem Reaches.of_eq (h : s.Reaches position) (heq : t.furthestFailure? = s.furthestFailure?) :
    t.Reaches position := by
  obtain ⟨furthest, hfurthest, hle⟩ := h
  exact ⟨furthest, heq.trans hfurthest, hle⟩

theorem Noted.of_eq (hinput : t.input = s.input) (hfurthest : t.furthestFailure? = s.furthestFailure?) :
    s.Noted loud [] t where
  input_eq := hinput
  only _ h := .inl (hfurthest ▸ h)
  kept _ h := h.of_eq hfurthest
  all _ _ h := nomatch h

theorem Noted.of_reached (h : loud → ∀ position ∈ failures, s.Reaches position) : s.Noted loud failures s where
  input_eq := rfl
  only _ h := .inl h
  kept _ h := h
  all := h

theorem Noted.trans (h : s.Noted loud failures t) (h' : t.Noted loud failures' u) :
    s.Noted loud (failures ++ failures') u where
  input_eq := h'.input_eq.trans h.input_eq
  only furthest hu := by
    rcases h'.only furthest hu with ht | hmem
    · exact (h.only furthest ht).imp_right fun hmem => List.mem_append_left _ hmem
    · exact .inr (List.mem_append_right _ hmem)
  kept position hs := h'.kept position (h.kept position hs)
  all hloud position hmem := by
    rcases List.mem_append.1 hmem with hmem | hmem
    · exact h'.kept position (h.all hloud position hmem)
    · exact h'.all hloud position hmem

theorem Noted.mono (h : s.Noted loud failures t) (hloud : loud' → loud) : s.Noted loud' failures t :=
  { h with all := fun hl => h.all (hloud hl) }

theorem Noted.then (h : s.Noted loud failures t) (hinput : u.input = t.input)
    (hfurthest : u.furthestFailure? = t.furthestFailure?) : s.Noted loud failures u := by
  simpa using h.trans (.of_eq hinput hfurthest)

theorem Noted.after (h : s.Noted loud failures t) (hinput : s.input = u.input)
    (hfurthest : s.furthestFailure? = u.furthestFailure?) : u.Noted loud failures t := by
  simpa using (Noted.of_eq hinput hfurthest).trans h

/-- Where nothing has been noted before, the furthest failure is the furthest of those that are all noted. -/
theorem Noted.furthestFailure?_eq (h : s.Noted loud failures t) (hnone : s.furthestFailure? = none) (hloud : loud) :
    t.furthestFailure? = failures.max? := by
  have hall := h.all hloud
  cases hfurthest : t.furthestFailure? with
  | none =>
    have hempty : failures = [] := List.eq_nil_iff_forall_not_mem.2 fun position hmem => by
      obtain ⟨furthest, hsome, _⟩ := hall position hmem
      nomatch hfurthest.symm.trans hsome
    rw [hempty, List.max?_nil]
  | some furthest =>
    have hmem := (h.only furthest hfurthest).resolve_left fun hsome => nomatch hnone.symm.trans hsome
    refine (List.max?_eq_some_iff.2 ⟨hmem, fun position hposition => ?_⟩).symm
    obtain ⟨furthest', hsome, hle⟩ := hall position hposition
    rwa [Option.some.inj (hfurthest.symm.trans hsome)]

theorem noted_noteFailure (htracks : s.diagnostics.tracksFailures = true) (position : Nat) :
    s.Noted loud [position] (s.noteFailure position) := by
  have hnew : (s.noteFailure position).furthestFailure? = _ := furthestFailure?_noteFailure_of_tracks htracks
  cases hold : s.furthestFailure? with
  | none =>
    rw [hold] at hnew
    refine ⟨rfl, fun furthest h => .inr ?_, fun p h => ?_, fun _ p hp => ?_⟩
    · simpa [hnew, eq_comm] using h
    · obtain ⟨furthest, hfurthest, _⟩ := h
      rw [hold] at hfurthest
      nomatch hfurthest
    · exact ⟨position, hnew, Nat.le_of_eq (List.mem_singleton.1 hp)⟩
  | some old =>
    rw [hold] at hnew
    refine ⟨rfl, fun furthest h => ?_, fun p h => ?_, fun _ p hp => ?_⟩
    · obtain rfl : max old position = furthest := by simpa [hnew] using h
      rcases Nat.le_total old position with hle | hle
      · exact .inr (by simp [Nat.max_eq_right hle])
      · exact .inl (by rw [hold, Nat.max_eq_left hle])
    · obtain ⟨furthest, hfurthest, hle⟩ := h
      obtain rfl : old = furthest := Option.some.inj (hold.symm.trans hfurthest)
      exact ⟨_, hnew, Nat.le_trans hle (Nat.le_max_left _ _)⟩
    · exact ⟨_, hnew, List.mem_singleton.1 hp ▸ Nat.le_max_right _ _⟩

/-- What is known of the notes and the memo table while there is no left recursion: failures are noted, each entry is
the plain match of its rule, unless that is pending, and the failures of the rules in `out` have been noted. -/
structure Told (g : Grammar) (out : NodeId → Prop) (pending : Pending) (s : Session) : Prop where
  tracks : s.diagnostics.tracksFailures = true
  marked : s.memo.Marked g
  entry : ∀ {q r e}, s.memo.get? q r = some e → ¬ pending q r →
    ∃ failures, g.Plain s.input (.node r) q e.stop? failures ∧ (out r → ∀ position ∈ failures, s.Reaches position)

variable {g : Grammar} {out : NodeId → Prop} {pending : Pending}

theorem Told.noted (hs : s.Told g out pending) (h : s.Noted loud failures t) (hmemo : t.memo = s.memo)
    (htracks : t.diagnostics.tracksFailures = s.diagnostics.tracksFailures) : t.Told g out pending where
  tracks := htracks.trans hs.tracks
  marked := hmemo ▸ hs.marked
  entry he hp := by
    rw [hmemo] at he
    obtain ⟨failures, hplain, hreaches⟩ := hs.entry he hp
    exact ⟨failures, h.input_eq ▸ hplain, fun hout position hmem => h.kept position (hreaches hout position hmem)⟩

theorem Told.of_eq (hs : s.Told g out pending) (hinput : t.input = s.input) (hmemo : t.memo = s.memo)
    (hfurthest : t.furthestFailure? = s.furthestFailure?)
    (htracks : t.diagnostics.tracksFailures = s.diagnostics.tracksFailures) : t.Told g out pending :=
  hs.noted (show s.Noted False [] t from .of_eq hinput hfurthest) hmemo htracks

theorem Told.seek (hs : s.Told g out pending) (position : Nat) : (s.seek position).Told g out pending :=
  hs.of_eq rfl rfl rfl rfl

theorem Told.emit (hs : s.Told g out pending) (kind : EventKind) (label : String) (start stop : Nat) :
    (s.emit kind label start stop).Told g out pending :=
  hs.of_eq (input_emit ..) (memo_emit ..) (furthestFailure?_emit ..) (tracksFailures_emit ..)

theorem Told.noteFailure (hs : s.Told g out pending) (position : Nat) : (s.noteFailure position).Told g out pending :=
  have hnoted : s.Noted False [position] (s.noteFailure position) := noted_noteFailure hs.tracks position
  hs.noted hnoted rfl (tracksFailures_noteFailure ..)

/-- Nothing is known of the placeholder of a rule that is tried for the first time. -/
theorem Told.begin (hs : s.Told g out pending) (position : Nat) (id : NodeId) :
    (s.remember position id (.placeholder position)).Told g out (pending.add position id) where
  tracks := hs.tracks
  marked := hs.marked.begin
  entry {q r e} he hp := by
    rw [memo_remember, MemoTable.get?_insert_of_ne fun heq => hp (.inr heq)] at he
    exact hs.entry he fun hp' => hp (.inl hp')

theorem Told.save {id : NodeId} {label : String} {m : Match} (hs : s.Told g out (pending.add position id))
    (hpos : position < s.memo.positions) (hstatus : m.status ≠ .detected)
    (hplain : g.Plain s.input (.node id) position m.stop? failures) (hnoted : t.Noted (out id) failures s) :
    (s.save position id label m).Told g out pending where
  tracks := (tracksFailures_emit ..).trans hs.tracks
  marked := by
    rw [memo_save]
    exact hs.marked.insert fun hdetected => absurd hdetected hstatus
  entry {q r e} he hp := by
    have hfurthest : (s.save position id label m).furthestFailure? = s.furthestFailure? := furthestFailure?_emit ..
    rw [memo_save, MemoTable.get?_insert] at he
    rw [input_save]
    split at he
    · rename_i heq
      obtain ⟨rfl, -, rfl⟩ := heq
      obtain rfl := Option.some.inj he
      exact ⟨failures, hplain, fun hout p hmem => (hnoted.all hout p hmem).of_eq hfurthest⟩
    · rename_i hne
      have hp : ¬ (pending.add position id) q r := by
        rintro (hp' | ⟨hq, hr⟩)
        · exact hp hp'
        · exact hne ⟨hq, hpos, hr⟩
      obtain ⟨failures', hplain', hreaches⟩ := hs.entry he hp
      exact ⟨failures', hplain', fun hout p hmem => (hreaches hout p hmem).of_eq hfurthest⟩

structure Tells (g : Grammar) (out : NodeId → Prop) (pending : Pending) (loud : Prop) (goal : Goal) (s : Session)
    (stop? : Option Nat) (t : Session) : Prop where
  told : t.Told g out pending
  plain : ∃ failures, g.Plain s.input goal s.cursor stop? failures ∧ s.Noted loud failures t
  cursor_eq : ∀ stop, stop? = some stop → t.cursor = stop

variable {goal goal' : Goal} {stop? : Option Nat}

theorem Tells.mono (h : Tells g out pending loud goal s stop? t) (hloud : loud' → loud) :
    Tells g out pending loud' goal s stop? t := by
  obtain ⟨failures, hplain, hnoted⟩ := h.plain
  exact ⟨h.told, ⟨failures, hplain, hnoted.mono hloud⟩, h.cursor_eq⟩

/-- Another goal that has the same outcomes has been matched as well. -/
theorem Tells.map (h : Tells g out pending loud goal s stop? t)
    (hgoal : ∀ {failures}, g.Plain s.input goal s.cursor stop? failures →
      g.Plain s.input goal' s.cursor stop? failures) : Tells g out pending loud goal' s stop? t := by
  obtain ⟨failures, hplain, hnoted⟩ := h.plain
  exact ⟨h.told, ⟨failures, hgoal hplain, hnoted⟩, h.cursor_eq⟩

theorem Tells.of_emit {kind : EventKind} {label : String} {start stop : Nat}
    (h : Tells g out pending loud goal (s.emit kind label start stop) stop? t) :
    Tells g out pending loud goal s stop? t := by
  obtain ⟨failures, hplain, hnoted⟩ := h.plain
  rw [input_emit, cursor_emit] at hplain
  exact ⟨h.told, ⟨failures, hplain, hnoted.after (input_emit ..) (furthestFailure?_emit ..)⟩, h.cursor_eq⟩

theorem Tells.emit (h : Tells g out pending loud goal s stop? t) (kind : EventKind) (label : String)
    (start stop : Nat) : Tells g out pending loud goal s stop? (t.emit kind label start stop) := by
  obtain ⟨failures, hplain, hnoted⟩ := h.plain
  exact ⟨h.told.emit kind label start stop,
    ⟨failures, hplain, hnoted.then (input_emit ..) (furthestFailure?_emit ..)⟩,
    fun stop' hstop => (cursor_emit ..).trans (h.cursor_eq stop' hstop)⟩

theorem Tells.seek (h : Tells g out pending loud goal s none t) (position : Nat) :
    Tells g out pending loud goal s none (t.seek position) := by
  obtain ⟨failures, hplain, hnoted⟩ := h.plain
  exact ⟨h.told.seek position, ⟨failures, hplain, hnoted.then rfl rfl⟩, fun _ hstop => nomatch hstop⟩

/-- The number of characters that agree is where the first difference is. -/
theorem agreement_spec (s : Session) (position : Nat) (expected : List Char) :
    (∀ j < s.agreement position expected, s.input[position + j]? = expected[j]?) ∧
      (s.agreement position expected < expected.length →
        s.input[position + s.agreement position expected]? ≠ expected[s.agreement position expected]?) := by
  induction expected generalizing position with
  | nil => exact ⟨fun j hj => absurd hj (Nat.not_lt_zero j), fun h => nomatch h⟩
  | cons c rest ih =>
    obtain ⟨hagrees, hdiffers⟩ := ih (position + 1)
    rw [agreement]
    split
    · rename_i hc
      constructor
      · intro j hj
        cases j with
        | zero => exact hc
        | succ j =>
          have hrest := hagrees j (Nat.lt_of_succ_lt_succ hj)
          rwa [Nat.add_assoc, Nat.add_comm 1 j] at hrest
      · intro hlt
        have hrest := hdiffers (Nat.lt_of_succ_lt_succ hlt)
        rwa [Nat.add_assoc, Nat.add_comm 1] at hrest
    · rename_i hc
      exact ⟨fun j hj => absurd hj (Nat.not_lt_zero j), fun _ => hc⟩

end Session

namespace Pattern

variable {g : Grammar} {out : NodeId → Prop} {pending : Pending} {loud : Prop} {call : Evaluator} {body : NodeId}
  {s t : Session} {m : Match}

def CallsTell (g : Grammar) (out : NodeId → Prop) (pending : Pending) (loud : Prop) (call : Evaluator) (c : NodeId) :
    Prop :=
  ∀ u k v, u.Told g out pending → call c u = .done (k, v) → Tells g out pending loud (.node c) u k.stop? v

theorem matchLiteral_tells {label text : String} (hs : s.Told g out pending)
    (h : matchLiteral label text s = .done (m, t)) :
    Tells g out pending loud (.pattern (.literal text)) s m.stop? t := by
  obtain ⟨hagrees, hdiffers⟩ := s.agreement_spec s.cursor text.toList
  unfold matchLiteral at h
  dsimp only at h
  split at h
  · rename_i hlt
    obtain ⟨rfl, rfl⟩ := Prod.mk.inj (Run.done.inj h)
    have hdiffers' : DiffersAfter s.input s.cursor text (s.commonLength text) :=
      ⟨hlt, hagrees, hdiffers (String.length_toList ▸ hlt)⟩
    exact ⟨hs.noteFailure _, ⟨_, .literalFails hdiffers', noted_noteFailure hs.tracks _⟩, fun _ hstop => nomatch hstop⟩
  · rename_i hge
    obtain ⟨u, hu, h⟩ := Run.bind_eq_done_iff.1 h
    obtain ⟨_, rfl⟩ := moveToR_eq_done_iff.1 hu
    obtain ⟨rfl, rfl⟩ := Prod.mk.inj (Run.done.inj h)
    have hall : AgreesFor s.input s.cursor text text.length := fun j hj =>
      hagrees j (Nat.lt_of_lt_of_le hj (Nat.not_lt.1 hge))
    refine ⟨(hs.seek _).emit _ _ _ _, ⟨[], .literal hall, .of_eq (by simp) (by simp; rfl)⟩, ?_⟩
    rintro _ ⟨⟩
    simp

theorem matchClass_tells {label : String} {cls : CharClass} (hs : s.Told g out pending)
    (h : matchClass label cls s = .done (m, t)) :
    Tells g out pending loud (.pattern (.charClass cls)) s m.stop? t := by
  have hfails : ¬ cls.AcceptsAt s.input s.cursor → Tells g out pending loud (.pattern (.charClass cls)) s none
      (s.noteFailure s.cursor) := fun hnot =>
    ⟨hs.noteFailure _, ⟨_, .charClassFails hnot, noted_noteFailure hs.tracks _⟩, fun _ hstop => nomatch hstop⟩
  unfold matchClass at h
  dsimp only at h
  split at h
  · rename_i hnone
    have hnone : s.input[s.cursor]? = none := hnone
    obtain ⟨rfl, rfl⟩ := Prod.mk.inj (Run.done.inj h)
    exact hfails fun ⟨c, hc, _⟩ => nomatch hnone.symm.trans hc
  · rename_i c hsome
    have hsome : s.input[s.cursor]? = some c := hsome
    split at h
    · rename_i haccepts
      obtain ⟨u, hu, h⟩ := Run.bind_eq_done_iff.1 h
      obtain ⟨_, rfl⟩ := moveToR_eq_done_iff.1 hu
      obtain ⟨rfl, rfl⟩ := Prod.mk.inj (Run.done.inj h)
      have hstop : (Match.leaf s.cursor (String.singleton c)).stop? = some (s.cursor + 1) := by simp [Match.stop?]
      rw [hstop]
      refine ⟨(hs.seek _).emit _ _ _ _, ⟨[], .charClass ⟨c, hsome, haccepts⟩, .of_eq (by simp) (by simp; rfl)⟩, ?_⟩
      rintro _ ⟨⟩
      simp
    · rename_i hrejects
      obtain ⟨rfl, rfl⟩ := Prod.mk.inj (Run.done.inj h)
      refine hfails ?_
      rintro ⟨c', hc', haccepts⟩
      obtain rfl := Option.some.inj (hsome.symm.trans hc')
      exact hrejects haccepts

theorem matchItems_tells {start : Nat} {items : List NodeId}
    (hcall : ∀ c ∈ items, CallsTell g out pending loud call c) {acc : Match} (hs : s.Told g out pending)
    (hsuccess : acc.success = true) (hstop : acc.stop = s.cursor)
    (h : matchItems call start items acc s = .done (m, t)) :
    Tells g out pending loud (.items items) s m.stop? t := by
  induction items generalizing acc s with
  | nil =>
    obtain ⟨rfl, rfl⟩ := Prod.mk.inj (Run.done.inj h)
    rw [Match.stop?_of_success hsuccess, hstop]
    refine ⟨hs, ⟨[], .itemsEnd, .of_eq rfl rfl⟩, ?_⟩
    rintro _ ⟨⟩
    rfl
  | cons item rest ih =>
    rw [matchItems] at h
    obtain ⟨⟨child, u⟩, hchild, h⟩ := Run.bind_eq_done_iff.1 h
    have hitem := hcall item (by simp) s child u hs hchild
    obtain ⟨failures, hplain, hnoted⟩ := hitem.plain
    dsimp only at h
    split at h
    · rename_i hchildSuccess
      rw [Match.stop?_of_success hchildSuccess] at hplain hitem
      have hcursor := hitem.cursor_eq _ rfl
      have hpushed : (acc.push child).success = true := hsuccess
      have hrest := ih (fun c hc => hcall c (by simp [hc])) hitem.told hpushed hcursor.symm h
      obtain ⟨failures', hplain', hnoted'⟩ := hrest.plain
      rw [hnoted.input_eq, hcursor] at hplain'
      exact ⟨hrest.told, ⟨_, .item hplain hplain', hnoted.trans hnoted'⟩, hrest.cursor_eq⟩
    · rename_i hchildFail
      rw [Match.stop?_of_failure (by simpa using hchildFail)] at hplain hitem
      obtain ⟨v, hv, h⟩ := Run.bind_eq_done_iff.1 h
      obtain ⟨_, rfl⟩ := moveToR_eq_done_iff.1 hv
      obtain ⟨rfl, rfl⟩ := Prod.mk.inj (Run.done.inj h)
      exact Tells.seek ⟨hitem.told, ⟨_, .itemFails hplain, hnoted⟩, hitem.cursor_eq⟩ start

theorem matchAlternatives_tells {alternatives : List NodeId}
    (hcall : ∀ c ∈ alternatives, CallsTell g out pending loud call c) (hs : s.Told g out pending)
    (h : matchAlternatives call s.cursor alternatives s = .done (m, t)) :
    Tells g out pending loud (.alternatives alternatives) s m.stop? t := by
  induction alternatives generalizing s with
  | nil =>
    obtain ⟨rfl, rfl⟩ := Prod.mk.inj (Run.done.inj h)
    exact ⟨hs, ⟨[], .alternativesEnd, .of_eq rfl rfl⟩, fun _ hstop => nomatch hstop⟩
  | cons alternative rest ih =>
    rw [matchAlternatives] at h
    obtain ⟨⟨child, u⟩, hchild, h⟩ := Run.bind_eq_done_iff.1 h
    have hfirst := hcall alternative (by simp) s child u hs hchild
    obtain ⟨failures, hplain, hnoted⟩ := hfirst.plain
    dsimp only at h
    split at h
    · rename_i hsuccess
      rw [Match.stop?_of_success hsuccess] at hplain hfirst
      obtain ⟨rfl, rfl⟩ := Prod.mk.inj (Run.done.inj h)
      exact ⟨hfirst.told, ⟨failures, .alternative hplain, hnoted⟩, hfirst.cursor_eq⟩
    · rename_i hfail
      rw [Match.stop?_of_failure (by simpa using hfail)] at hplain
      obtain ⟨v, hv, h⟩ := Run.bind_eq_done_iff.1 h
      obtain ⟨_, rfl⟩ := moveToR_eq_done_iff.1 hv
      have hrest := ih (fun c hc => hcall c (by simp [hc])) (hfirst.told.seek s.cursor) h
      obtain ⟨failures', hplain', hnoted'⟩ := hrest.plain
      rw [input_seek, cursor_seek, hnoted.input_eq] at hplain'
      have hback : s.Noted loud failures (u.seek s.cursor) := hnoted.then rfl rfl
      exact ⟨hrest.told, ⟨_, .alternativeFails hplain hplain', hback.trans hnoted'⟩, hrest.cursor_eq⟩

theorem mayRepeat_iff {max? : Option Nat} {count : Nat} : mayRepeat max? count = true ↔ MayGoOn max? count := by
  cases max? with
  | none => simp [mayRepeat, MayGoOn]
  | some max => simp [mayRepeat, MayGoOn]

/-- The rounds come to a match if there are enough of them. -/
theorem matchRounds_tells (hcall : CallsTell g out pending loud call body) {min : Nat} {max? : Option Nat}
    {rounds count n : Nat} {acc : Match} (hs : s.Told g out pending) (hsuccess : acc.success = true)
    (hstop : acc.stop = s.cursor) (h : matchRounds call body min max? rounds count acc s = .done (n, m, t)) :
    m.success = true ∧
      Tells g out pending loud (.rounds body min max? count) s (if n < min then none else some m.stop) t := by
  induction rounds generalizing count acc s with
  | zero => cases h
  | succ rounds ih =>
    rw [matchRounds] at h
    split at h
    · rename_i hmay
      have hmay := mayRepeat_iff.1 hmay
      obtain ⟨⟨child, u⟩, hchild, h⟩ := Run.bind_eq_done_iff.1 h
      have hround := hcall s child u hs hchild
      obtain ⟨failures, hplain, hnoted⟩ := hround.plain
      dsimp only at h
      cases hchildSuccess : child.success with
      | false =>
        rw [Match.stop?_of_failure hchildSuccess] at hplain
        rw [hchildSuccess, Bool.not_false, if_pos rfl] at h
        obtain ⟨v, hv, h⟩ := Run.bind_eq_done_iff.1 h
        obtain ⟨_, rfl⟩ := moveToR_eq_done_iff.1 hv
        obtain ⟨rfl, rfl, rfl⟩ := by simpa using h
        rw [hstop]
        refine ⟨hsuccess, hround.told.seek _, ⟨failures, .roundFails hmay hplain, hnoted.then rfl rfl⟩, ?_⟩
        intro stop heq
        split at heq
        · cases heq
        · exact Option.some.inj heq
      | true =>
        rw [Match.stop?_of_success hchildSuccess] at hplain hround
        have hcursor := hround.cursor_eq _ rfl
        rw [hchildSuccess, Bool.not_true, if_neg Bool.false_ne_true] at h
        split at h
        · rename_i hlt
          have hpushed : (acc.push child).success = true := hsuccess
          obtain ⟨hmSuccess, hrest⟩ := ih hround.told hpushed hcursor.symm h
          obtain ⟨failures', hplain', hnoted'⟩ := hrest.plain
          rw [hnoted.input_eq, hcursor] at hplain'
          exact ⟨hmSuccess, hrest.told, ⟨_, .round hmay hplain hlt hplain', hnoted.trans hnoted'⟩, hrest.cursor_eq⟩
        · rename_i hle
          obtain ⟨rfl, rfl, rfl⟩ := by simpa using h
          have hnot : ¬ max (count + 1) min < min := Nat.not_lt.2 (Nat.le_max_right _ _)
          rw [if_neg hnot]
          exact ⟨hsuccess, hround.told, ⟨failures, .emptyRound hmay hplain hle, hnoted⟩, hround.cursor_eq⟩
    · rename_i hfull
      obtain ⟨rfl, rfl, rfl⟩ := by simpa using h
      have hfull : ¬ MayGoOn max? count := fun hmay => hfull (mayRepeat_iff.2 hmay)
      rw [hstop]
      refine ⟨hsuccess, hs, ⟨[], .roundsFull hfull, .of_eq rfl rfl⟩, ?_⟩
      intro stop heq
      split at heq
      · cases heq
      · exact Option.some.inj heq

theorem matchRepetition_tells (hcall : CallsTell g out pending loud call body) {min : Nat} {max? : Option Nat}
    (hs : s.Told g out pending) (h : matchRepetition call body min max? s = .done (m, t)) :
    Tells g out pending loud (.pattern (.repetition body min max?)) s m.stop? t := by
  unfold matchRepetition at h
  obtain ⟨⟨n, k, u⟩, hrounds, h⟩ := Run.bind_eq_done_iff.1 h
  obtain ⟨hsuccess, hloop⟩ := matchRounds_tells hcall hs rfl rfl hrounds
  have hwhole : Tells g out pending loud (.pattern (.repetition body min max?)) s
      (if n < min then none else some k.stop) u := hloop.map .repetition
  dsimp only at h
  split at h
  · rename_i hfew
    rw [if_pos hfew] at hwhole
    obtain ⟨v, hv, h⟩ := Run.bind_eq_done_iff.1 h
    obtain ⟨_, rfl⟩ := moveToR_eq_done_iff.1 hv
    obtain ⟨rfl, rfl⟩ := Prod.mk.inj (Run.done.inj h)
    exact hwhole.seek _
  · rename_i henough
    rw [if_neg henough] at hwhole
    obtain ⟨rfl, rfl⟩ := Prod.mk.inj (Run.done.inj h)
    rwa [Match.stop?_of_success hsuccess]

/-- What is noted inside a lookahead is withdrawn. So the entries of rules whose failures are all noted must not have
been made there. -/
theorem matchPredicate_tells {loud' : Prop} (hcall : CallsTell g out pending loud' call body) {expected : Bool}
    (hframe : ∀ k v, call body s = .done (k, v) → ∀ q r e, out r → v.memo.get? q r = some e → s.memo.get? q r = some e)
    (hs : s.Told g out pending) (h : matchPredicate call body expected s = .done (m, t)) :
    Tells g out pending loud (.pattern (.predicate body expected)) s m.stop? t := by
  unfold matchPredicate at h
  obtain ⟨⟨child, u⟩, hchild, h⟩ := Run.bind_eq_done_iff.1 h
  have hbody := hcall s child u hs hchild
  obtain ⟨failures, hplain, hnoted⟩ := hbody.plain
  obtain ⟨v, hv, h⟩ := Run.bind_eq_done_iff.1 h
  obtain ⟨_, rfl⟩ := moveToR_eq_done_iff.1 hv
  obtain ⟨rfl, rfl⟩ := Prod.mk.inj (Run.done.inj h)
  have hstop : (if child.success == expected then Match.empty s.cursor else .fail s.cursor).stop? =
      if child.stop?.isSome = expected then some s.cursor else none := by
    rw [Match.isSome_stop?]
    by_cases heq : child.success = expected <;> simp [heq]
  refine ⟨⟨hbody.told.tracks, hbody.told.marked, fun {q r e} he hp => ?_⟩, ⟨[], ?_, .of_eq hnoted.input_eq rfl⟩, ?_⟩
  · -- an entry of a rule whose failures are all noted was there before the lookahead
    have hinput : ((u.seek s.cursor).restoreFailure s.furthestFailure?).input = s.input := hnoted.input_eq
    by_cases hout : out r
    · obtain ⟨failures', hplain', hreaches⟩ := hs.entry (hframe child u hchild q r e hout he) hp
      rw [hinput]
      exact ⟨failures', hplain', fun hr position hmem => (hreaches hr position hmem).of_eq rfl⟩
    · obtain ⟨failures', hplain', _⟩ := hbody.told.entry he hp
      exact ⟨failures', hplain', fun hr => absurd hr hout⟩
  · rw [hstop]
    exact .predicate hplain
  · intro stop heq
    rw [hstop] at heq
    split at heq
    · exact Option.some.inj heq
    · nomatch heq

theorem matchRule_tells (hcall : CallsTell g out pending loud call body) (hs : s.Told g out pending)
    (h : matchRule call body s = .done (m, t)) : Tells g out pending loud (.pattern (.rule body)) s m.stop? t := by
  unfold matchRule at h
  obtain ⟨⟨child, u⟩, hchild, h⟩ := Run.bind_eq_done_iff.1 h
  have hbody : Tells g out pending loud (.pattern (.rule body)) s child.stop? u :=
    (hcall s child u hs hchild).map .rule
  dsimp only at h
  split at h
  · rename_i hshown
    obtain ⟨rfl, rfl⟩ := Prod.mk.inj (Run.done.inj h)
    have hsuccess : child.success = true := (Bool.and_eq_true_iff.1 hshown).1
    rwa [Match.stop?_push rfl, ← Match.stop?_of_success hsuccess]
  · obtain ⟨rfl, rfl⟩ := Prod.mk.inj (Run.done.inj h)
    exact hbody

theorem eval_tells {label : String} {pattern : Pattern}
    (hcall : pattern.kind ≠ .predicate → ∀ c ∈ pattern.components, CallsTell g out pending loud call c)
    (hquiet : ∀ body expected, pattern = .predicate body expected → CallsTell g out pending False call body ∧
      ∀ k v, call body s = .done (k, v) → ∀ q r e, out r → v.memo.get? q r = some e → s.memo.get? q r = some e)
    (hs : s.Told g out pending) (h : pattern.eval call label s = .done (m, t)) :
    Tells g out pending loud (.pattern pattern) s m.stop? t := by
  cases pattern with
  | literal text => exact matchLiteral_tells hs h
  | charClass cls => exact matchClass_tells hs h
  | sequence items =>
    exact (matchItems_tells (hcall (by simp [kind])) hs rfl rfl h).map .sequence
  | choice alternatives =>
    exact (matchAlternatives_tells (hcall (by simp [kind])) hs h).map .choice
  | repetition body min max? =>
    exact matchRepetition_tells (hcall (by simp [kind]) body (by simp [components])) hs h
  | predicate body expected =>
    obtain ⟨hbody, hframe⟩ := hquiet body expected rfl
    exact matchPredicate_tells hbody hframe hs h
  | rule body => exact matchRule_tells (hcall (by simp [kind]) body (by simp [components])) hs h

end Pattern

end Packrat
