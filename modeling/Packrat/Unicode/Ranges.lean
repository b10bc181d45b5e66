/-!
# Ranges of scalar values

A property of characters is given as a list of closed ranges of scalar values, in rising order and
apart from each other.
-/

namespace Packrat.Unicode

/-- Whether `n` lies in one of the rising ranges; the search stops at the first range above `n`. -/
def inRanges : List (Nat × Nat) → Nat → Bool
  | [], _ => false
  | (lo, hi) :: rest, n => decide (lo ≤ n) && (decide (n ≤ hi) || inRanges rest n)

/-- In a rising list, the search finds exactly what lies in some range. -/
theorem inRanges_iff {ranges : List (Nat × Nat)} (rising : ranges.Pairwise fun a b => a.1 ≤ b.1)
    (n : Nat) : inRanges ranges n = true ↔ ∃ range ∈ ranges, range.1 ≤ n ∧ n ≤ range.2 := by
  induction ranges with
  | nil => simp [inRanges]
  | cons range rest ih =>
    obtain ⟨lo, hi⟩ := range
    rw [List.pairwise_cons] at rising
    simp only [inRanges, Bool.and_eq_true, Bool.or_eq_true, decide_eq_true_eq, ih rising.2,
      List.mem_cons, or_and_right, exists_or, exists_eq_left]
    constructor
    · rintro ⟨hl, hh | hr⟩
      · exact .inl ⟨hl, hh⟩
      · exact .inr hr
    · rintro (⟨hl, hh⟩ | ⟨range, hm, hr⟩)
      · exact ⟨hl, .inl hh⟩
      · exact ⟨Nat.le_trans (rising.1 range hm) hr.1, .inr ⟨range, hm, hr⟩⟩

end Packrat.Unicode
