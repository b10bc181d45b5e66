import Packrat.Match.Basic

/-!
# The memo table

One row for each position of the input and one for its end; in a row, at most one match for each
node. Reading outside the table finds nothing, and writing there changes nothing.
-/

namespace Packrat

abbrev MemoRow := List (NodeId × Match)

namespace MemoRow

def get? (row : MemoRow) (id : NodeId) : Option Match :=
  match row with
  | [] => none
  | entry :: rest => if entry.1 = id then some entry.2 else MemoRow.get? rest id

/-- Puts a match in the place of the one it replaces, or at the end. -/
def insert (row : MemoRow) (id : NodeId) (m : Match) : MemoRow :=
  match row with
  | [] => [(id, m)]
  | entry :: rest => if entry.1 = id then (id, m) :: rest else entry :: MemoRow.insert rest id m

def erase (row : MemoRow) (id : NodeId) : MemoRow :=
  match row with
  | [] => []
  | entry :: rest => if entry.1 = id then MemoRow.erase rest id else entry :: MemoRow.erase rest id

theorem get?_insert (row : MemoRow) (id other : NodeId) (m : Match) :
    (row.insert id m).get? other = if other = id then some m else row.get? other := by
  induction row with
  | nil => simp [insert, get?, eq_comm]
  | cons entry rest ih =>
    by_cases he : entry.1 = id
    · by_cases h : other = id
      · simp [insert, get?, he, h]
      · simp [insert, get?, he, h, Ne.symm h]
    · by_cases h : entry.1 = other
      · subst h
        simp [insert, get?, he]
      · simp [insert, get?, he, h, ih]

theorem get?_erase (row : MemoRow) (id other : NodeId) :
    (row.erase id).get? other = if other = id then none else row.get? other := by
  induction row with
  | nil => simp [erase, get?]
  | cons entry rest ih =>
    by_cases he : entry.1 = id
    · by_cases h : other = id
      · subst h
        simpa [erase, he] using ih
      · simp [erase, get?, he, h, ih, Ne.symm h]
    · by_cases h : entry.1 = other
      · subst h
        simp [erase, get?, he]
      · simp [erase, get?, he, h, ih]

end MemoRow

structure MemoTable where
  rows : Array MemoRow

namespace MemoTable

def forLength (length : Nat) : MemoTable := ⟨Array.replicate (length + 1) []⟩

/-- The number of positions, the end of the input included. -/
def positions (t : MemoTable) : Nat := t.rows.size

def row (t : MemoTable) (position : Nat) : MemoRow := (t.rows[position]?).getD []

def get? (t : MemoTable) (position : Nat) (id : NodeId) : Option Match := (t.row position).get? id

def insert (t : MemoTable) (position : Nat) (id : NodeId) (m : Match) : MemoTable :=
  ⟨t.rows.modify position (fun row => row.insert id m)⟩

def erase (t : MemoTable) (position : Nat) (id : NodeId) : MemoTable :=
  ⟨t.rows.modify position (fun row => row.erase id)⟩

def countAt (t : MemoTable) (position : Nat) : Nat := (t.row position).length

def total (t : MemoTable) : Nat := t.rows.foldl (fun count row => count + row.length) 0

def clear (t : MemoTable) : MemoTable := ⟨t.rows.map (fun _ => [])⟩

/-- The entries of the given nodes, by position and then in the order of the nodes. -/
def entries (t : MemoTable) (ids : List NodeId) : List (Nat × NodeId × Match) :=
  (List.range t.positions).flatMap fun position =>
    ids.filterMap fun id => (t.get? position id).map fun m => (position, id, m)

@[simp] theorem positions_forLength (length : Nat) : (forLength length).positions = length + 1 := by
  simp [forLength, positions]

@[simp] theorem positions_insert (t : MemoTable) (position : Nat) (id : NodeId) (m : Match) :
    (t.insert position id m).positions = t.positions := by
  simp [insert, positions]

@[simp] theorem positions_erase (t : MemoTable) (position : Nat) (id : NodeId) :
    (t.erase position id).positions = t.positions := by
  simp [erase, positions]

@[simp] theorem positions_clear (t : MemoTable) : t.clear.positions = t.positions := by
  simp [clear, positions]

theorem row_insert (t : MemoTable) (position other : Nat) (id : NodeId) (m : Match) :
    (t.insert position id m).row other =
      if other = position ∧ position < t.positions then (t.row position).insert id m
      else t.row other := by
  unfold MemoTable.insert MemoTable.row positions
  rw [Array.getElem?_modify]
  by_cases h : other = position
  · subst h
    by_cases hp : other < t.rows.size <;> simp [hp]
  · simp [h, Ne.symm h]

theorem row_erase (t : MemoTable) (position other : Nat) (id : NodeId) :
    (t.erase position id).row other =
      if other = position then (t.row position).erase id else t.row other := by
  unfold MemoTable.erase MemoTable.row
  rw [Array.getElem?_modify]
  by_cases h : other = position
  · subst h
    by_cases hp : other < t.rows.size <;> simp [hp, MemoRow.erase]
  · simp [h, Ne.symm h]

/-- A match is found where it was put; everything else is as before. -/
theorem get?_insert (t : MemoTable) (position other : Nat) (id id' : NodeId) (m : Match) :
    (t.insert position id m).get? other id' =
      if other = position ∧ position < t.positions ∧ id' = id then some m
      else t.get? other id' := by
  unfold get?
  rw [row_insert]
  by_cases h : other = position ∧ position < t.positions
  · rw [if_pos h, MemoRow.get?_insert]
    obtain ⟨rfl, hp⟩ := h
    simp [hp]
  · rw [if_neg h, if_neg (fun hc => h ⟨hc.1, hc.2.1⟩)]

theorem get?_erase (t : MemoTable) (position other : Nat) (id id' : NodeId) :
    (t.erase position id).get? other id' =
      if other = position ∧ id' = id then none else t.get? other id' := by
  unfold get?
  rw [row_erase]
  by_cases h : other = position
  · subst h
    rw [if_pos rfl, MemoRow.get?_erase]
    simp
  · rw [if_neg h, if_neg (fun hc => h hc.1)]

@[simp] theorem get?_forLength (length position : Nat) (id : NodeId) :
    (forLength length).get? position id = none := by
  unfold get? row forLength MemoRow.get?
  by_cases h : position < length + 1 <;> simp [h]

@[simp] theorem get?_clear (t : MemoTable) (position : Nat) (id : NodeId) :
    t.clear.get? position id = none := by
  unfold get? row clear MemoRow.get?
  by_cases h : position < t.rows.size <;> simp [h]

end MemoTable

end Packrat
