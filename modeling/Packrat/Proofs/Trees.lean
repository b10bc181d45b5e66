import Packrat.Proofs.Sessions

/-!
# Trees that spell the input

A tree spells the input if each match in it is a success that covers a part of the input, has the text
of that part, and is covered by its children, if it has any, one after the other. The constructors of
matches keep to this.
-/

namespace Packrat

namespace Match

mutual

/-- The match and all those that it stands on, each before those below it. -/
def subtrees : Match → List Match
  | ⟨success, start, stop, text, status, origin?, children⟩ =>
    ⟨success, start, stop, text, status, origin?, children⟩ :: subtreesAll children

def subtreesAll : List Match → List Match
  | [] => []
  | m :: rest => subtrees m ++ subtreesAll rest

end

theorem withStatus_eq_self {m : Match} {status : Status} (h : m.status = status) : m.withStatus status = m := by
  subst h
  cases m
  rfl

theorem subtrees_eq (m : Match) : m.subtrees = m :: subtreesAll m.children := by
  cases m
  rw [subtrees]

theorem mem_subtreesAll {d : Match} {ms : List Match} :
    d ∈ subtreesAll ms ↔ ∃ m ∈ ms, d ∈ m.subtrees := by
  induction ms with
  | nil => simp [subtreesAll]
  | cons m rest ih => simp [subtreesAll, ih]

mutual

theorem mem_subtrees_trans : (m : Match) → ∀ {d e}, d ∈ m.subtrees → e ∈ d.subtrees → e ∈ m.subtrees
  | ⟨success, start, stop, text, status, origin?, children⟩, d, e, hd, he => by
    rw [subtrees] at hd ⊢
    rcases List.mem_cons.1 hd with rfl | hd
    · exact subtrees.eq_1 success start stop text status origin? children ▸ he
    · exact List.mem_cons_of_mem _ (mem_subtreesAll_trans children hd he)

theorem mem_subtreesAll_trans : (ms : List Match) → ∀ {d e}, d ∈ subtreesAll ms → e ∈ d.subtrees →
    e ∈ subtreesAll ms
  | [], d, e, hd, he => by simp [subtreesAll] at hd
  | m :: rest, d, e, hd, he => by
    rw [subtreesAll, List.mem_append] at hd ⊢
    rcases hd with hd | hd
    · exact .inl (mem_subtrees_trans m hd he)
    · exact .inr (mem_subtreesAll_trans rest hd he)

end

theorem mem_subtrees_of_mem_children {m child : Match} (h : child ∈ m.children) : child ∈ m.subtrees := by
  rw [subtrees_eq]
  refine List.mem_cons_of_mem _ (mem_subtreesAll.2 ⟨child, h, ?_⟩)
  rw [subtrees_eq]
  exact List.mem_cons_self

/-- The matches lie one after the other and cover everything from `start` to `stop`. -/
def Tile : (ms : List Match) → (start stop : Nat) → Prop
  | [], start, stop => start = stop
  | m :: rest, start, stop => m.start = start ∧ Tile rest m.stop stop

theorem Tile.append_singleton {ms : List Match} {start : Nat} {m : Match}
    (h : Tile ms start m.start) : Tile (ms ++ [m]) start m.stop := by
  induction ms generalizing start with
  | nil => exact ⟨h.symm, rfl⟩
  | cons first rest ih => exact ⟨h.1, ih h.2⟩

/-- One match by itself: it covers a part of the input, and its children cover it. -/
structure Fits (input : Array Char) (m : Match) : Prop where
  success : m.success = true
  start_le_stop : m.start ≤ m.stop
  stop_le : m.stop ≤ input.size
  text_eq : m.text = textBetween input m.start m.stop
  tile : m.children ≠ [] → Tile m.children m.start m.stop

def Spells (input : Array Char) (m : Match) : Prop := ∀ d ∈ m.subtrees, d.Fits input

variable {input : Array Char} {m child : Match}

theorem spells_iff : m.Spells input ↔ m.Fits input ∧ ∀ child ∈ m.children, child.Spells input := by
  unfold Spells
  rw [subtrees_eq]
  simp only [List.mem_cons, forall_eq_or_imp, mem_subtreesAll]
  refine and_congr_right fun _ => ⟨fun h child hc d hd => h d ⟨child, hc, hd⟩, ?_⟩
  rintro h d ⟨child, hc, hd⟩
  exact h child hc d hd

theorem Spells.fits (h : m.Spells input) : m.Fits input := (spells_iff.1 h).1

theorem Spells.stamp (h : m.Spells input) (origin : Origin) : (m.stamp origin).Spells input := by
  obtain ⟨hm, hc⟩ := spells_iff.1 h
  exact spells_iff.2 ⟨⟨hm.success, hm.start_le_stop, hm.stop_le, hm.text_eq, hm.tile⟩, hc⟩

theorem Spells.withStatus (h : m.Spells input) (status : Status) :
    (m.withStatus status).Spells input := by
  obtain ⟨hm, hc⟩ := spells_iff.1 h
  exact spells_iff.2 ⟨⟨hm.success, hm.start_le_stop, hm.stop_le, hm.text_eq, hm.tile⟩, hc⟩

theorem Spells.empty {position : Nat} (h : position ≤ input.size) :
    (Match.empty position).Spells input :=
  spells_iff.2 ⟨⟨rfl, Nat.le_refl _, h, (textBetween_self input position).symm, fun hc => absurd rfl hc⟩,
    by simp⟩

theorem Spells.leaf {start : Nat} {text : String} (hle : start + text.length ≤ input.size)
    (htext : text = textBetween input start (start + text.length)) :
    (Match.leaf start text).Spells input :=
  spells_iff.2 ⟨⟨rfl, Nat.le_add_right _ _, hle, htext, fun hc => absurd rfl hc⟩,
    by simp⟩

/-- A match to which children are being added: without any it is empty. -/
structure Growing (input : Array Char) (start cursor : Nat) (m : Match) : Prop where
  spells : m.Spells input
  start_eq : m.start = start
  stop_eq : m.stop = cursor
  empty : m.children = [] → m.stop = m.start

theorem Growing.ofEmpty {position : Nat} (h : position ≤ input.size) :
    Growing input position position (Match.empty position) :=
  ⟨.empty h, rfl, rfl, fun _ => rfl⟩

/-- A child that begins at the cursor extends the match up to its own end. -/
theorem Growing.push {start cursor : Nat} (h : Growing input start cursor m)
    (hchild : child.Spells input) (hstart : child.start = cursor) :
    Growing input start child.stop (m.push child) := by
  obtain ⟨hm, hkids⟩ := spells_iff.1 h.spells
  have hstop := h.stop_eq
  have hstart' : (m.push child).start = start := by
    unfold Match.push
    dsimp only
    split
    · rename_i hnil
      rw [hstart, ← hstop, h.empty (List.isEmpty_iff.1 hnil), h.start_eq]
    · exact h.start_eq
  have htext : (m.push child).text = textBetween input start child.stop := by
    unfold Match.push
    dsimp only
    split
    · rename_i hnil
      rw [hchild.fits.text_eq, hstart, ← hstop, h.empty (List.isEmpty_iff.1 hnil), h.start_eq]
    · rw [hm.text_eq, hchild.fits.text_eq, hstart, hstop, h.start_eq]
      refine textBetween_append input ?_ ?_
      · rw [← h.start_eq, ← hstop]
        exact hm.start_le_stop
      · rw [← hstart]
        exact hchild.fits.start_le_stop
  have htile : Tile (m.children ++ [child]) start child.stop := by
    refine Tile.append_singleton ?_
    by_cases hnil : m.children = []
    · rw [hnil, hstart, ← hstop, h.empty hnil, h.start_eq]
      rfl
    · have ht := hm.tile hnil
      rwa [h.start_eq, hstop, ← hstart] at ht
  refine ⟨spells_iff.2 ⟨⟨hm.success, ?_, hchild.fits.stop_le, ?_, ?_⟩, ?_⟩, hstart', rfl, by simp⟩
  · have h₁ := hm.start_le_stop
    have h₂ := hchild.fits.start_le_stop
    rw [hstart', stop_push, ← h.start_eq]
    omega
  · rw [htext, hstart', stop_push]
  · intro _
    rw [hstart']
    exact htile
  · intro c hc
    rcases List.mem_append.1 hc with hc | hc
    · exact hkids c hc
    · rw [List.mem_singleton.1 hc]
      exact hchild

/-- Texts of matches that lie one after the other make up the text of the whole. -/
theorem join_text_of_tile {ms : List Match} {start stop : Nat} (htile : Tile ms start stop)
    (hfits : ∀ m ∈ ms, m.Fits input) :
    String.join (ms.map Match.text) = textBetween input start stop ∧ start ≤ stop := by
  induction ms generalizing start with
  | nil =>
    obtain rfl : start = stop := htile
    simp [String.join]
  | cons m rest ih =>
    obtain ⟨rfl, hrest⟩ := htile
    have hm := hfits m (by simp)
    obtain ⟨htext, hle⟩ := ih hrest fun d hd => hfits d (by simp [hd])
    refine ⟨?_, Nat.le_trans hm.start_le_stop hle⟩
    rw [List.map_cons, String.join_cons, htext, hm.text_eq]
    exact textBetween_append input hm.start_le_stop hle

end Match

end Packrat
