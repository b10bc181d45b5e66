import Packrat.Proofs.Below
import Packrat.Proofs.LeftEdges

/-!
# Well-formed traces

The events of a match nest: a node is tried between the attempt and its end, and a rule grows between the two ends
of its growth. A trace is read event by event, with a stack of what has been begun and not ended. An event that has
no place where it stands cannot be read.
-/

namespace Packrat

open Session

namespace Trace

inductive Phase where
  /-- An attempt to grow. -/
  | waiting
  /-- The end of the attempt. -/
  | trying
  /-- The end of the growth. -/
  | over
deriving DecidableEq, Repr

/-- Something that has been begun: a trial of a node, or the growth of a rule. -/
inductive Frame where
  | trial (label : String) (start : Nat)
  /-- The longest match so far goes up to `stop`, after `accepted` attempts that were accepted. -/
  | growth (label : String) (start stop accepted : Nat) (phase : Phase)
deriving DecidableEq, Repr

def inGrowth : List Frame → Bool
  | .growth .. :: _ => true
  | _ => false

/-- What is open after one more event, if it has a place where it stands. -/
def read (frames : List Frame) (e : Event) : Option (List Frame) :=
  match e.kind, frames with
  | .attempt, frames => some (.trial e.label e.start :: frames)
  | .accept, .trial label start :: rest | .reject, .trial label start :: rest =>
    if e.label = label ∧ e.start = start then some rest else none
  | .beginGrow, frames =>
    if inGrowth frames then none else some (.growth e.label e.start e.stop 0 .waiting :: frames)
  | .growAttempt n, .growth label start stop accepted .waiting :: rest =>
    if e.label = label ∧ e.start = start ∧ n = accepted + 1 ∧ e.stop = stop then
      some (.growth label start stop accepted .trying :: rest)
    else none
  | .growAccept n, .growth label start stop accepted .trying :: rest =>
    if e.label = label ∧ e.start = start ∧ n = accepted + 1 ∧ stop < e.stop then
      some (.growth label start e.stop n .waiting :: rest)
    else none
  | .growReject n, .growth label start stop accepted .trying :: rest
  | .growFail n, .growth label start stop accepted .trying :: rest =>
    if e.label = label ∧ e.start = start ∧ n = accepted + 1 then some (.growth label start stop accepted .over :: rest)
    else none
  | .growTerminate n, .growth label start stop accepted .over :: rest =>
    if e.label = label ∧ e.start = start ∧ n = accepted ∧ e.stop = stop then some rest else none
  | .identifyLeftRecursion, frames => if inGrowth frames then none else some frames
  | .charAccept, frames | .memoCheck, frames | .memoSave _, frames | .assumeResult _, frames => some frames
  | _, _ => none

/-! What can be read: the end of the last trial, and in a growth the events in their order. -/

section

variable {frames : List Frame} {label text : String} {start stop n last : Nat}

theorem read_accept : read (.trial label start :: frames) ⟨.accept, label, start, stop, text⟩ = some frames :=
  if_pos ⟨rfl, rfl⟩

theorem read_reject : read (.trial label start :: frames) ⟨.reject, label, start, stop, text⟩ = some frames :=
  if_pos ⟨rfl, rfl⟩

theorem read_beginGrow (h : inGrowth frames = false) : read frames ⟨.beginGrow, label, start, stop, text⟩ =
    some (.growth label start stop 0 .waiting :: frames) :=
  if_neg (h ▸ Bool.false_ne_true)

theorem read_growAttempt : read (.growth label start stop n .waiting :: frames)
    ⟨.growAttempt (n + 1), label, start, stop, text⟩ = some (.growth label start stop n .trying :: frames) :=
  if_pos ⟨rfl, rfl, rfl, rfl⟩

theorem read_growAccept (h : last < stop) : read (.growth label start last n .trying :: frames)
    ⟨.growAccept (n + 1), label, start, stop, text⟩ = some (.growth label start stop (n + 1) .waiting :: frames) :=
  if_pos ⟨rfl, rfl, rfl, h⟩

theorem read_growReject : read (.growth label start last n .trying :: frames)
    ⟨.growReject (n + 1), label, start, stop, text⟩ = some (.growth label start last n .over :: frames) :=
  if_pos ⟨rfl, rfl, rfl⟩

theorem read_growFail : read (.growth label start last n .trying :: frames)
    ⟨.growFail (n + 1), label, start, stop, text⟩ = some (.growth label start last n .over :: frames) :=
  if_pos ⟨rfl, rfl, rfl⟩

theorem read_growTerminate : read (.growth label start stop n .over :: frames)
    ⟨.growTerminate n, label, start, stop, text⟩ = some frames :=
  if_pos ⟨rfl, rfl, rfl, rfl⟩

theorem read_identifyLeftRecursion (h : inGrowth frames = false) :
    read frames ⟨.identifyLeftRecursion, label, start, stop, text⟩ = some frames :=
  if_neg (h ▸ Bool.false_ne_true)

end

def readAll (history : History) : Option (List Frame) := history.toList.foldlM read []

theorem readAll_push (history : History) (e : Event) :
    readAll (history.push e) = (readAll history).bind fun frames => read frames e := by
  simp [readAll, List.foldlM_append]

/-- The attempts to grow are counted, and come after the growth has begun. -/
example : readAll #[⟨.beginGrow, "A", 0, 1, "a"⟩, ⟨.growAttempt 1, "A", 0, 1, "a"⟩] =
    some [.growth "A" 0 1 0 .trying] := rfl

example : readAll #[⟨.beginGrow, "A", 0, 1, "a"⟩, ⟨.growAttempt 2, "A", 0, 1, "a"⟩] = none := rfl

end Trace

/-- The event lies in the input and shows the text of its span. -/
structure Event.LiesIn (input : Array Char) (e : Event) : Prop where
  start_le_stop : e.start ≤ e.stop
  stop_le : e.stop ≤ input.size
  text_eq : e.text = textBetween input e.start e.stop

/-- Whether an event of this kind may come of a growth in which no attempt is accepted. -/
def EventKind.fruitless : EventKind → Bool
  | .growAttempt iteration | .growReject iteration => iteration == 1
  | .growTerminate iterations => iterations == 0
  | .growAccept _ | .growFail _ => false
  | _ => true

/-- If the label is that of a rule which is not directly left-recursive, the event comes of no growth, or of one in
which no attempt is accepted. -/
def Grammar.Licenses (g : Grammar) (kind : EventKind) (label : String) : Prop :=
  ∀ r, g.isVisible r = true → g.label r = label → g.isDirectlyLeftRecursive r = false → kind.fruitless = true

theorem Grammar.licenses_of_fruitless {g : Grammar} {kind : EventKind} (h : kind.fruitless = true) (label : String) :
    g.Licenses kind label := fun _ _ _ _ => h

open Trace

/-- The events that have been recorded in the session, if they are, can be read and leave `frames` open. -/
structure Session.Traced (g : Grammar) (input : Array Char) (recording : Bool) (frames : List Frame) (s : Session) :
    Prop where
  input_eq : s.input = input
  recording_eq : s.history?.isSome = recording
  readAll_eq : ∀ history, s.history? = some history → readAll history = some frames
  events : ∀ history, s.history? = some history → ∀ e ∈ history, e.LiesIn input ∧ g.Licenses e.kind e.label

namespace Session

variable {g : Grammar} {input : Array Char} {recording : Bool} {frames frames' : List Frame} {s t : Session}

theorem Traced.of_eq (hs : s.Traced g input recording frames) (hinput : t.input = s.input)
    (hhistory : t.history? = s.history?) : t.Traced g input recording frames where
  input_eq := hinput.trans hs.input_eq
  recording_eq := hhistory ▸ hs.recording_eq
  readAll_eq := hhistory ▸ hs.readAll_eq
  events := hhistory ▸ hs.events

theorem Traced.seek (hs : s.Traced g input recording frames) (position : Nat) :
    (s.seek position).Traced g input recording frames := hs.of_eq rfl rfl

theorem Traced.remember (hs : s.Traced g input recording frames) (position : Nat) (id : NodeId) (m : Match) :
    (s.remember position id m).Traced g input recording frames := hs.of_eq rfl rfl

/-- An event may be recorded if it lies in the input and has a place where it stands. -/
theorem Traced.emit (hs : s.Traced g input recording frames) {kind : EventKind} {label : String} {start stop : Nat}
    (hstart : start ≤ stop) (hstop : stop ≤ input.size) (hlicensed : g.Licenses kind label)
    (hread : ∀ text, read frames ⟨kind, label, start, stop, text⟩ = some frames') :
    (s.emit kind label start stop).Traced g input recording frames' := by
  unfold Session.emit
  split
  · rename_i hnone
    have hnone : s.history? = none := hnone
    refine ⟨hs.input_eq, hs.recording_eq, fun history h => ?_, fun history h => ?_⟩
    · rw [hnone] at h
      nomatch h
    · rw [hnone] at h
      nomatch h
  · rename_i old hold
    have hnew : (s.diagnostics.record ⟨kind, label, start, stop, s.slice start stop⟩).history? =
        some (old.push ⟨kind, label, start, stop, s.slice start stop⟩) := by
      rw [Diagnostics.record, hold]
      rfl
    refine ⟨hs.input_eq, ?_, fun history h => ?_, fun history h => ?_⟩
    · have hrecording := hs.recording_eq
      rw [history?, hold] at hrecording
      rw [history?, hnew]
      exact hrecording
    · obtain rfl := Option.some.inj (hnew.symm.trans h)
      rw [readAll_push, hs.readAll_eq old hold]
      exact hread _
    · obtain rfl := Option.some.inj (hnew.symm.trans h)
      intro e he
      rcases Array.mem_push.1 he with he | rfl
      · exact hs.events old hold e he
      · refine ⟨⟨hstart, hstop, ?_⟩, hlicensed⟩
        rw [← hs.input_eq]
        rfl

/-- An event that may stand anywhere, and leaves open what was open before. -/
theorem Traced.note (hs : s.Traced g input recording frames) {kind : EventKind} {label : String} {start stop : Nat}
    (hstart : start ≤ stop) (hstop : stop ≤ input.size) (hkind : kind.fruitless = true)
    (hread : ∀ text, read frames ⟨kind, label, start, stop, text⟩ = some frames) :
    (s.emit kind label start stop).Traced g input recording frames :=
  hs.emit hstart hstop (Grammar.licenses_of_fruitless hkind label) hread

theorem Traced.save (hs : s.Traced g input recording frames) (position : Nat) (id : NodeId) (label : String)
    {m : Match} (hstart : m.start ≤ m.stop) (hstop : m.stop ≤ input.size) :
    (s.save position id label m).Traced g input recording frames :=
  (hs.remember position id m).note hstart hstop rfl fun _ => rfl

theorem Traced.quiet (g : Grammar) (input : Array Char) (recording : Bool) (frames : List Frame) :
    Quiet fun s => s.Traced g input recording frames where
  seek _ h := h.seek _
  noteFailure _ h := by
    refine h.of_eq rfl ?_
    unfold Session.noteFailure Session.history? Diagnostics.noteFailure
    dsimp only
    split <;> rfl
  restoreFailure _ h := h.of_eq rfl rfl
  charAccept label start stop hstart hstop h := by
    refine h.note hstart ?_ rfl fun _ => rfl
    rw [← h.input_eq]
    exact hstop

theorem Traced.start (g : Grammar) (input : String) (options : Options) :
    (Session.start input options).Traced g (Session.start input options).input options.recordHistory [] := by
  have hhistory : (Session.start input options).history? = if options.recordHistory then some #[] else none := rfl
  refine ⟨rfl, ?_, fun history h => ?_, fun history h => ?_⟩
  · rw [hhistory]
    cases options.recordHistory <;> rfl
  · rw [hhistory] at h
    split at h
    · obtain rfl := Option.some.inj h
      rfl
    · nomatch h
  · rw [hhistory] at h
    split at h
    · obtain rfl := Option.some.inj h
      simp
    · nomatch h

end Session

end Packrat
