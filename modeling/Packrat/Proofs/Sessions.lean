import Packrat.Matcher.Call

/-!
# What the steps of a session leave alone

Each step of a session writes one of its parts. Here are the equations for the other parts, and the
facts about the text of an input from one position to another.
-/

namespace Packrat

namespace Session

variable (s : Session) (position : Nat) (id : NodeId) (m : Match)

def seek : Session := { s with cursor := position }

@[simp] theorem input_seek : (s.seek position).input = s.input := rfl

@[simp] theorem cursor_seek : (s.seek position).cursor = position := rfl

@[simp] theorem memo_seek : (s.seek position).memo = s.memo := rfl

@[simp] theorem seek_cursor : s.seek s.cursor = s := rfl

@[simp] theorem input_restoreFailure (furthest : Option Nat) :
    (s.restoreFailure furthest).input = s.input := rfl

@[simp] theorem cursor_restoreFailure (furthest : Option Nat) :
    (s.restoreFailure furthest).cursor = s.cursor := rfl

@[simp] theorem memo_restoreFailure (furthest : Option Nat) :
    (s.restoreFailure furthest).memo = s.memo := rfl

@[simp] theorem input_remember : (s.remember position id m).input = s.input := rfl

@[simp] theorem cursor_remember : (s.remember position id m).cursor = s.cursor := rfl

@[simp] theorem memo_remember : (s.remember position id m).memo = s.memo.insert position id m := rfl

@[simp] theorem input_save (label : String) : (s.save position id label m).input = s.input := by
  simp [save]

@[simp] theorem cursor_save (label : String) : (s.save position id label m).cursor = s.cursor := by
  simp [save]

@[simp] theorem memo_save (label : String) :
    (s.save position id label m).memo = s.memo.insert position id m := by
  simp [save]

theorem length_eq {s t : Session} (h : s.input = t.input) : s.length = t.length := by
  simp [length, h]

theorem moveToR_eq_done_iff {s t : Session} {position : Nat} :
    s.moveToR position = .done t ↔ position ≤ s.length ∧ t = s.seek position := by
  unfold moveToR moveTo
  by_cases h : position ≤ s.length
  · simp [h, seek, eq_comm]
  · simp [h]

theorem moveToR_of_le {s : Session} {position : Nat} (h : position ≤ s.length) :
    s.moveToR position = .done (s.seek position) := moveToR_eq_done_iff.2 ⟨h, rfl⟩

/-- The sessions differ at most in their notes. -/
structure Alike (s t : Session) : Prop where
  input_eq : s.input = t.input
  cursor_eq : s.cursor = t.cursor
  memo_eq : s.memo = t.memo

theorem Alike.trans {s t u : Session} (h : s.Alike t) (h' : t.Alike u) : s.Alike u :=
  ⟨h.input_eq.trans h'.input_eq, h.cursor_eq.trans h'.cursor_eq, h.memo_eq.trans h'.memo_eq⟩

theorem alike_emit (kind : EventKind) (label : String) (start stop : Nat) :
    (s.emit kind label start stop).Alike s :=
  ⟨input_emit .., cursor_emit .., memo_emit ..⟩

theorem alike_save (s : Session) (position : Nat) (id : NodeId) (label : String) (m : Match) :
    (s.save position id label m).Alike (s.remember position id m) := alike_emit ..

theorem Alike.seek {s t : Session} (h : s.Alike t) (position : Nat) : (s.seek position).Alike (t.seek position) :=
  ⟨h.input_eq, rfl, h.memo_eq⟩

theorem Alike.remember {s t : Session} (h : s.Alike t) (position : Nat) (id : NodeId) (m : Match) :
    (s.remember position id m).Alike (t.remember position id m) :=
  ⟨h.input_eq, h.cursor_eq, by rw [memo_remember, memo_remember, h.memo_eq]⟩

theorem Alike.length_eq {s t : Session} (h : s.Alike t) : s.length = t.length := Session.length_eq h.input_eq

end Session

def textBetween (input : Array Char) (start stop : Nat) : String :=
  String.ofList (input.extract start stop).toList

@[simp] theorem textBetween_self (input : Array Char) (position : Nat) :
    textBetween input position position = "" := by
  simp [textBetween]

theorem textBetween_append (input : Array Char) {a b c : Nat} (hab : a ≤ b) (hbc : b ≤ c) :
    textBetween input a b ++ textBetween input b c = textBetween input a c := by
  unfold textBetween
  rw [← String.ofList_append, ← Array.toList_append, Array.extract_append_extract]
  rw [Nat.min_eq_left hab, Nat.max_eq_right hbc]

theorem extract_singleton {input : Array Char} {position : Nat} {c : Char}
    (h : input[position]? = some c) : (input.extract position (position + 1)).toList = [c] := by
  obtain ⟨hlt, hget⟩ := Array.getElem?_eq_some_iff.1 h
  rw [Array.toList_extract, List.extract_eq_take_drop, Nat.add_sub_cancel_left,
    List.drop_eq_getElem_cons (by simpa using hlt)]
  simp [hget]

theorem textBetween_singleton {input : Array Char} {position : Nat} {c : Char}
    (h : input[position]? = some c) :
    textBetween input position (position + 1) = String.singleton c := by
  rw [textBetween, extract_singleton h, String.singleton_eq_ofList]

theorem Session.extract_of_agreement (s : Session) {position : Nat} {expected : List Char}
    (h : expected.length ≤ s.agreement position expected) (hp : position ≤ s.input.size) :
    position + expected.length ≤ s.input.size ∧
      (s.input.extract position (position + expected.length)).toList = expected := by
  induction expected generalizing position with
  | nil => simp [hp]
  | cons c rest ih =>
    simp only [agreement] at h
    split at h
    · rename_i hc
      obtain ⟨hlt, _⟩ := Array.getElem?_eq_some_iff.1 hc
      obtain ⟨hle, htext⟩ := ih (by simpa using h) hlt
      have hsplit : s.input.extract position (position + (rest.length + 1)) =
          s.input.extract position (position + 1) ++
            s.input.extract (position + 1) (position + 1 + rest.length) := by
        rw [Array.extract_append_extract]
        congr 1 <;> omega
      refine ⟨by simp only [List.length_cons]; omega, ?_⟩
      rw [List.length_cons, hsplit, Array.toList_append, htext, extract_singleton hc]
      rfl
    · simp at h

end Packrat
