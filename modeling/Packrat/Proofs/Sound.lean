import Packrat.Proofs.LeftEdges
import Packrat.Proofs.Trees
import Packrat.Proofs.Yields

/-!
# Sound sessions and the answers to calls

What is true of a session at every moment of a match, and what a call makes of it. While rules are
being evaluated the memo table holds placeholders and seeds for them; those calls are called pending,
and all that is said of an entry without them is that it lies where it belongs. The entries of all
other calls are final.
-/

namespace Packrat

/-- The calls of rules, by position and node, that are still being evaluated. -/
abbrev Pending := Nat → NodeId → Prop

namespace Pending

def none : Pending := fun _ _ => False

def add (pending : Pending) (position : Nat) (id : NodeId) : Pending :=
  fun q r => pending q r ∨ (q = position ∧ r = id)

end Pending

namespace MemoTable

/-- Every match of `t` is in `u`, where at most a placeholder has been marked. -/
def Kept (t u : MemoTable) : Prop :=
  ∀ position id m, t.get? position id = some m →
    u.get? position id = some m ∨
      (m.status = .possible ∧ u.get? position id = some (m.withStatus .detected))

theorem Kept.refl (t : MemoTable) : t.Kept t := fun _ _ _ h => .inl h

theorem Kept.trans {t u v : MemoTable} (htu : t.Kept u) (huv : u.Kept v) : t.Kept v := by
  intro position id m h
  rcases htu position id m h with hu | ⟨hstatus, hu⟩
  · exact huv position id m hu
  · rcases huv position id _ hu with hv | ⟨hmarked, _⟩
    · exact .inr ⟨hstatus, hv⟩
    · simp [Match.withStatus] at hmarked

theorem Kept.isSome {t u : MemoTable} (h : t.Kept u) {position : Nat} {id : NodeId}
    (ht : (t.get? position id).isSome) : (u.get? position id).isSome := by
  obtain ⟨m, hm⟩ := Option.isSome_iff_exists.1 ht
  rcases h position id m hm with hu | ⟨_, hu⟩ <;> simp [hu]

/-- A match whose evaluation is over, or at least known to be left-recursive, stays as it is. -/
theorem Kept.get? {t u : MemoTable} (h : t.Kept u) {position : Nat} {id : NodeId} {m : Match}
    (hm : t.get? position id = some m) (hstatus : m.status ≠ .possible) :
    u.get? position id = some m :=
  (h position id m hm).resolve_right fun hc => hstatus hc.1

end MemoTable

namespace Match

/-- The match lies at `position` in the input: it is an empty failure there, or a success that spells
the input, and empty only if `null` holds. -/
structure Placed (input : Array Char) (position : Nat) (null : Prop) (m : Match) : Prop where
  start_eq : m.start = position
  start_le_stop : position ≤ m.stop
  stop_le : m.stop ≤ input.size
  failure : m.success = false → m.stop = position ∧ m.text = "" ∧ m.children = []
  spells : m.success = true → m.Spells input
  null : m.success = true → m.stop = position → null

variable {input : Array Char} {position : Nat} {null null' : Prop} {m : Match}

theorem Placed.mono (h : m.Placed input position null) (hnull : null → null') :
    m.Placed input position null' :=
  { h with null := fun hs hstop => hnull (h.null hs hstop) }

theorem Placed.fail (h : position ≤ input.size) : (Match.fail position).Placed input position null where
  start_eq := rfl
  start_le_stop := Nat.le_refl _
  stop_le := h
  failure _ := ⟨rfl, rfl, rfl⟩
  spells hs := by simp at hs
  null hs := by simp at hs

theorem Placed.placeholder (h : position ≤ input.size) :
    (Match.placeholder position).Placed input position null where
  start_eq := rfl
  start_le_stop := Nat.le_refl _
  stop_le := h
  failure _ := ⟨rfl, rfl, rfl⟩
  spells hs := by cases hs
  null hs := by cases hs

theorem Placed.stamp (h : m.Placed input position null) (origin : Origin) :
    (m.stamp origin).Placed input position null where
  start_eq := h.start_eq
  start_le_stop := h.start_le_stop
  stop_le := h.stop_le
  failure := h.failure
  spells hs := (h.spells hs).stamp origin
  null := h.null

theorem Placed.withStatus (h : m.Placed input position null) (status : Status) :
    (m.withStatus status).Placed input position null where
  start_eq := h.start_eq
  start_le_stop := h.start_le_stop
  stop_le := h.stop_le
  failure := h.failure
  spells hs := (h.spells hs).withStatus status
  null := h.null

theorem Growing.placed {cursor : Nat} (h : Growing input position cursor m)
    (hnull : cursor = position → null) : m.Placed input position null where
  start_eq := h.start_eq
  start_le_stop := h.start_eq ▸ h.spells.fits.start_le_stop
  stop_le := h.spells.fits.stop_le
  failure hf := by simp [h.spells.fits.success] at hf
  spells _ := h.spells
  null _ hstop := hnull (h.stop_eq ▸ hstop)

end Match

namespace Grammar

/-- An entry of the memo table for `id` that no evaluation will change. -/
structure Settled (g : Grammar) (id : NodeId) (m : Match) : Prop where
  status_ne : m.status ≠ .possible
  failure_status : m.success = false → m.status = .impossible
  origin?_eq : m.origin? = (g.node? id).map Node.origin

end Grammar

namespace Session

/-- What holds of a session at every moment of a match. -/
structure Sound (g : Grammar) (pending : Pending) (s : Session) : Prop where
  cursor_le : s.cursor ≤ s.length
  positions_eq : s.memo.positions = s.length + 1
  placed : ∀ {q r m}, s.memo.get? q r = some m → m.Placed s.input q (g.Nullable r)
  visible : ∀ {q r m}, s.memo.get? q r = some m → g.isVisible r = true
  settled : ∀ {q r m}, s.memo.get? q r = some m → ¬ pending q r → g.Settled r m

/-- The session `t` is met during a match that began in `s`. -/
structure Within (g : Grammar) (pending : Pending) (s t : Session) : Prop where
  sound : t.Sound g pending
  input_eq : t.input = s.input
  cursor_le : s.cursor ≤ t.cursor
  kept : s.memo.Kept t.memo

/-- A call in `s` was answered with `m` and left the session `t`. -/
structure Answered (g : Grammar) (pending : Pending) (null : Prop) (s : Session) (m : Match)
    (t : Session) : Prop where
  within : s.Within g pending t
  placed : m.Placed s.input s.cursor null
  cursor_eq : t.cursor = m.stop
  failure_status : m.success = false → m.status = .impossible ∨ ∃ q r, pending q r

variable {g : Grammar} {pending : Pending} {null null' : Prop} {s t u : Session} {m : Match}

theorem Sound.alike (hs : s.Sound g pending) (h : t.Alike s) : t.Sound g pending where
  cursor_le := by rw [h.cursor_eq, h.length_eq]; exact hs.cursor_le
  positions_eq := by rw [h.memo_eq, h.length_eq]; exact hs.positions_eq
  placed he := by rw [h.input_eq]; exact hs.placed (h.memo_eq ▸ he)
  visible he := hs.visible (h.memo_eq ▸ he)
  settled he := hs.settled (h.memo_eq ▸ he)

theorem Sound.seek (hs : s.Sound g pending) {position : Nat} (h : position ≤ s.length) :
    (s.seek position).Sound g pending where
  cursor_le := h
  positions_eq := hs.positions_eq
  placed := hs.placed
  visible := hs.visible
  settled := hs.settled

theorem Within.refl (hs : s.Sound g pending) : s.Within g pending s :=
  ⟨hs, rfl, Nat.le_refl _, .refl _⟩

theorem Within.trans (hst : s.Within g pending t) (htu : t.Within g pending u) :
    s.Within g pending u :=
  ⟨htu.sound, htu.input_eq.trans hst.input_eq, Nat.le_trans hst.cursor_le htu.cursor_le,
    hst.kept.trans htu.kept⟩

theorem Within.length_eq (h : s.Within g pending t) : t.length = s.length :=
  Session.length_eq h.input_eq

theorem Within.alike (h : s.Within g pending t) (hu : u.Alike t) : s.Within g pending u :=
  ⟨h.sound.alike hu, hu.input_eq.trans h.input_eq, hu.cursor_eq ▸ h.cursor_le, hu.memo_eq ▸ h.kept⟩

theorem Within.of_alike (h : s.Within g pending t) (hs : s.Alike u) : u.Within g pending t :=
  ⟨h.sound, h.input_eq.trans hs.input_eq, hs.cursor_eq ▸ h.cursor_le, hs.memo_eq ▸ h.kept⟩

theorem Within.seek (h : s.Within g pending t) {position : Nat} (hle : s.cursor ≤ position)
    (hlen : position ≤ s.length) : s.Within g pending (t.seek position) :=
  ⟨h.sound.seek (h.length_eq ▸ hlen), h.input_eq, hle, h.kept⟩

theorem Answered.mono (h : Answered g pending null s m t) (hnull : null → null') :
    Answered g pending null' s m t :=
  { h with placed := h.placed.mono hnull }

theorem Answered.alike (h : Answered g pending null s m t) (hu : u.Alike t) : Answered g pending null s m u :=
  { h with within := h.within.alike hu, cursor_eq := hu.cursor_eq.trans h.cursor_eq }

theorem Answered.of_alike (h : Answered g pending null s m t) (hs : s.Alike u) : Answered g pending null u m t where
  within := h.within.of_alike hs
  placed := hs.input_eq ▸ hs.cursor_eq ▸ h.placed
  cursor_eq := h.cursor_eq
  failure_status := h.failure_status

/-- What a failure leaves behind: everything as it was, but for entries of other calls. -/
theorem Within.fail (h : s.Within g pending t) (hs : s.Sound g pending) (hcursor : t.cursor = s.cursor) :
    Answered g pending null s (.fail s.cursor) t where
  within := h
  placed := .fail hs.cursor_le
  cursor_eq := hcursor
  failure_status _ := .inl rfl

theorem Within.growing (h : s.Within g pending t) (hm : m.Growing s.input s.cursor t.cursor)
    (hnull : t.cursor = s.cursor → null) : Answered g pending null s m t where
  within := h
  placed := hm.placed hnull
  cursor_eq := hm.stop_eq.symm
  failure_status hf := by simp [hm.spells.fits.success] at hf

end Session

end Packrat
