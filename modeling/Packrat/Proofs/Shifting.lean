import Packrat.Proofs.Sessions

/-!
# Shifted sessions

A session over an input can be seen as one over a longer input that has some more characters in front: every
position, wherever one is kept, moves by their number. Here is what that does to matches, to the memo table, to
the notes and to the errors, and that each step of a session commutes with it.
-/

namespace Packrat

open Session

namespace Match

mutual

/-- The match with all of its positions moved. -/
def shift (offset : Nat) : Match → Match
  | ⟨success, start, stop, text, status, origin?, children⟩ =>
    ⟨success, offset + start, offset + stop, text, status, origin?, shiftAll offset children⟩

def shiftAll (offset : Nat) : List Match → List Match
  | [] => []
  | m :: rest => shift offset m :: shiftAll offset rest

end

variable (offset position : Nat) (m child : Match)

theorem shiftAll_eq_map (ms : List Match) : shiftAll offset ms = ms.map (shift offset) := by
  induction ms with
  | nil => rfl
  | cons m rest ih => rw [shiftAll, ih, List.map_cons]

theorem shift_eq : m.shift offset = { m with
    start := offset + m.start, stop := offset + m.stop, children := m.children.map (shift offset) } := by
  cases m
  rw [shift, shiftAll_eq_map]

@[simp] theorem success_shift : (m.shift offset).success = m.success := by rw [shift_eq]

@[simp] theorem start_shift : (m.shift offset).start = offset + m.start := by rw [shift_eq]

@[simp] theorem stop_shift : (m.shift offset).stop = offset + m.stop := by rw [shift_eq]

@[simp] theorem text_shift : (m.shift offset).text = m.text := by rw [shift_eq]

@[simp] theorem status_shift : (m.shift offset).status = m.status := by rw [shift_eq]

@[simp] theorem origin?_shift : (m.shift offset).origin? = m.origin? := by rw [shift_eq]

@[simp] theorem children_shift : (m.shift offset).children = m.children.map (shift offset) := by rw [shift_eq]

@[simp] theorem hidden_shift : (m.shift offset).hidden = m.hidden := by simp [hidden]

@[simp] theorem shift_fail : (fail position).shift offset = fail (offset + position) := by
  rw [shift_eq]
  rfl

@[simp] theorem shift_placeholder : (placeholder position).shift offset = placeholder (offset + position) := by
  rw [shift_eq]
  rfl

@[simp] theorem shift_empty : (empty position).shift offset = empty (offset + position) := by
  rw [shift_eq]
  rfl

@[simp] theorem shift_leaf (text : String) : (leaf position text).shift offset = leaf (offset + position) text := by
  rw [shift_eq, leaf, ← Nat.add_assoc]
  rfl

@[simp] theorem shift_withStatus (status : Status) :
    (m.withStatus status).shift offset = (m.shift offset).withStatus status := by
  simp [shift_eq, withStatus]

@[simp] theorem shift_stamp (origin : Origin) : (m.stamp origin).shift offset = (m.shift offset).stamp origin := by
  simp [shift_eq, stamp]

@[simp] theorem shift_push : (m.push child).shift offset = (m.shift offset).push (child.shift offset) := by
  rw [shift_eq]
  unfold push
  by_cases h : m.children.isEmpty = true <;> simp [h]

end Match

namespace MemoRow

/-- The row with the positions of its matches moved. -/
def shift (offset : Nat) (row : MemoRow) : MemoRow := row.map fun entry => (entry.1, entry.2.shift offset)

variable (offset : Nat) (row : MemoRow) (id : NodeId) (m : Match)

theorem get?_shift : MemoRow.get? (row.shift offset) id = (MemoRow.get? row id).map (Match.shift offset) := by
  induction row with
  | nil => rfl
  | cons entry rest ih =>
    by_cases h : entry.1 = id
    · simp [shift, get?, h]
    · simpa [shift, get?, h] using ih

theorem insert_shift : MemoRow.insert (row.shift offset) id (m.shift offset) = (row.insert id m).shift offset := by
  induction row with
  | nil => rfl
  | cons entry rest ih =>
    by_cases h : entry.1 = id
    · simp [shift, insert, h]
    · simpa [shift, insert, h] using ih

end MemoRow

namespace MemoTable

/-- The table with all positions moved; there is nothing at the positions before. -/
def shift (offset : Nat) (t : MemoTable) : MemoTable :=
  ⟨Array.replicate offset [] ++ t.rows.map (MemoRow.shift offset)⟩

variable (offset position : Nat) (t : MemoTable) (id : NodeId) (m : Match)

theorem row_shift : (t.shift offset).row (offset + position) = (t.row position).shift offset := by
  unfold row shift
  rw [Array.getElem?_append_right (by simp)]
  cases h : t.rows[position]? with
  | none => simp [h, MemoRow.shift]
  | some r => simp [h]

theorem get?_shift :
    (t.shift offset).get? (offset + position) id = (t.get? position id).map (Match.shift offset) := by
  rw [get?, get?, row_shift, MemoRow.get?_shift]

theorem insert_shift :
    (t.shift offset).insert (offset + position) id (m.shift offset) = (t.insert position id m).shift offset := by
  refine congrArg MemoTable.mk (Array.ext_getElem? fun q => ?_)
  rw [Array.getElem?_modify]
  unfold shift
  dsimp only
  by_cases hq : q < offset
  · have hne : ¬ offset + position = q := by omega
    rw [Array.getElem?_append_left (by simpa using hq), Array.getElem?_append_left (by simpa using hq), if_neg hne]
  · rw [Array.getElem?_append_right (by simpa using hq), Array.getElem?_append_right (by simpa using hq),
      Array.getElem?_map, Array.getElem?_map, MemoTable.insert, Array.getElem?_modify, Array.size_replicate]
    have hiff : offset + position = q ↔ position = q - offset := by omega
    simp only [hiff]
    split
    · cases t.rows[q - offset]? with
      | none => rfl
      | some r => simp [MemoRow.insert_shift]
    · rfl

theorem shift_forLength (length : Nat) : (forLength length).shift offset = forLength (offset + length) := by
  unfold shift forLength
  simp [MemoRow.shift, Nat.add_assoc]

end MemoTable

def MatchError.shift (offset : Nat) : MatchError → MatchError
  | .cursorPastEnd position length => .cursorPastEnd (offset + position) (offset + length)
  | .positionOutOfBounds position length => .positionOutOfBounds (offset + position) (offset + length)
  | .unknownNode id => .unknownNode id
  | .unknownRule name => .unknownRule name

def Event.shift (offset : Nat) (e : Event) : Event := { e with start := offset + e.start, stop := offset + e.stop }

def Diagnostics.shift (offset : Nat) (d : Diagnostics) : Diagnostics :=
  { d with
    history? := d.history?.map fun history => history.map (Event.shift offset)
    furthestFailure? := d.furthestFailure?.map (offset + ·) }

namespace Session

/-- The session with more characters in front of its input. -/
def after (before : Array Char) (s : Session) : Session where
  input := before ++ s.input
  cursor := before.size + s.cursor
  memo := s.memo.shift before.size
  printRange := s.printRange
  diagnostics := s.diagnostics.shift before.size

variable (before : Array Char) (s : Session) (position : Nat) (id : NodeId) (m : Match)

@[simp] theorem input_after : (s.after before).input = before ++ s.input := rfl

@[simp] theorem cursor_after : (s.after before).cursor = before.size + s.cursor := rfl

@[simp] theorem memo_after : (s.after before).memo = s.memo.shift before.size := rfl

@[simp] theorem length_after : (s.after before).length = before.size + s.length := by simp [length]

@[simp] theorem furthestFailure?_after :
    (s.after before).furthestFailure? = s.furthestFailure?.map (before.size + ·) := rfl

theorem restoreFailure_after (furthest : Option Nat) :
    (s.after before).restoreFailure (furthest.map (before.size + ·)) = (s.restoreFailure furthest).after before := rfl

theorem remember_after : (s.after before).remember (before.size + position) id (m.shift before.size) =
    (s.remember position id m).after before := by
  unfold remember after
  simp [MemoTable.insert_shift]

theorem remembered?_after :
    (s.after before).remembered? id = (s.remembered? id).map (Match.shift before.size) :=
  MemoTable.get?_shift before.size s.cursor s.memo id

theorem peek?_after : (s.after before).peek? = s.peek? := by
  simp [peek?, Array.getElem?_append_right]

theorem agreement_after (expected : List Char) :
    (s.after before).agreement (before.size + position) expected = s.agreement position expected := by
  induction expected generalizing position with
  | nil => rfl
  | cons c rest ih =>
    have hget : (s.after before).input[before.size + position]? = s.input[position]? := by
      simp [Array.getElem?_append_right]
    rw [agreement, agreement, hget, Nat.add_assoc, ih]

theorem commonLength_after (text : String) : (s.after before).commonLength text = s.commonLength text :=
  agreement_after before s s.cursor text.toList

theorem slice_after (start stop : Nat) :
    (s.after before).slice (before.size + start) (before.size + stop) = s.slice start stop := by
  simp [slice, Array.extract_append]

theorem emit_after (kind : EventKind) (label : String) (start stop : Nat) :
    (s.after before).emit kind label (before.size + start) (before.size + stop) =
      (s.emit kind label start stop).after before := by
  unfold emit
  cases h : s.diagnostics.history? with
  | none => simp [after, Diagnostics.shift, h]
  | some history =>
    rw [slice_after]
    simp [after, Diagnostics.shift, Diagnostics.record, Event.shift, h]

theorem noteFailure_after :
    (s.after before).noteFailure (before.size + position) = (s.noteFailure position).after before := by
  unfold noteFailure Diagnostics.noteFailure
  by_cases h : s.diagnostics.tracksFailures = true
  · cases hf : s.diagnostics.furthestFailure? with
    | none => simp [after, Diagnostics.shift, h, hf]
    | some furthest => simp [after, Diagnostics.shift, h, hf, Nat.add_max_add_left]
  · simp [after, Diagnostics.shift, h]

theorem save_after (label : String) :
    (s.after before).save (before.size + position) id label (m.shift before.size) =
      (s.save position id label m).after before := by
  rw [save, remember_after, Match.status_shift, Match.start_shift, Match.stop_shift, emit_after, save]

def front (input : String) (position : Nat) : Array Char := (input.toList.take position).toArray

def rest (input : String) (position : Nat) : String := String.ofList (input.toList.drop position)

theorem size_front {input : String} {position : Nat} (h : position ≤ input.length) :
    (front input position).size = position := by
  simp [front, String.length_toList, Nat.min_eq_left h]

/-- A session that has been started and moved to a position is one over the rest of the input, with what has been
left out in front. -/
theorem seek_start_eq_after {input : String} (options : Options) {position : Nat} (h : position ≤ input.length) :
    (Session.start input options).seek position =
      (Session.start (rest input position) options).after (front input position) := by
  have hsplit : front input position ++ (input.toList.drop position).toArray = input.toList.toArray := by
    rw [front, List.append_toArray, List.take_append_drop]
  have hlength : position + (input.length - position) = input.length := Nat.add_sub_cancel' h
  unfold seek after start
  simp [hsplit, rest, size_front h, MemoTable.shift_forLength, Diagnostics.shift, Diagnostics.forOptions,
    String.length_toList, hlength]

end Session

end Packrat
