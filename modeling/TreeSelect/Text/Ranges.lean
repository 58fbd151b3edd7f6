/-!
Character classes given as ranges of code points.
-/

namespace TreeSelect.Text

/-- Inclusive bounds of a run of code points. -/
abbrev CodeRange := Nat × Nat

def CodeRange.holds (range : CodeRange) (code : Nat) : Bool :=
  decide (range.1 ≤ code) && decide (code ≤ range.2)

def inRanges (ranges : List CodeRange) (c : Char) : Bool :=
  ranges.any fun range => range.holds c.toNat

theorem in_ranges_iff (ranges : List CodeRange) (c : Char) :
    inRanges ranges c = true ↔ ∃ range ∈ ranges, range.1 ≤ c.toNat ∧ c.toNat ≤ range.2 := by
  simp [inRanges, CodeRange.holds]

end TreeSelect.Text
