/-!
# Selections

A selection runs from an anchor to the caret, in either direction. Where the two
meet it is empty and marks a place.
-/
namespace StructEdit

structure Selection where
  anchor : Nat
  caret : Nat
  deriving DecidableEq, Repr

namespace Selection

def point (offset : Nat) : Selection := ⟨offset, offset⟩

def isEmpty (s : Selection) : Bool := s.anchor == s.caret

def lower (s : Selection) : Nat := min s.anchor s.caret

def upper (s : Selection) : Nat := max s.anchor s.caret

/-- The selection with both ends moved on by `n`. -/
def shift (s : Selection) (n : Nat) : Selection := ⟨s.anchor + n, s.caret + n⟩

/-- The selection with both ends held at or below `limit`. -/
def clamp (s : Selection) (limit : Nat) : Selection := ⟨min s.anchor limit, min s.caret limit⟩

theorem lower_le_upper (s : Selection) : s.lower ≤ s.upper :=
  Nat.le_trans (Nat.min_le_left _ _) (Nat.le_max_left _ _)

/-- The range of a selection that runs forward. -/
theorem eq_ends_of_le {s : Selection} (h : s.anchor ≤ s.caret) :
    s.lower = s.anchor ∧ s.upper = s.caret :=
  ⟨Nat.min_eq_left h, Nat.max_eq_right h⟩

theorem eq_point_of_isEmpty {s : Selection} (h : s.isEmpty = true) : s = .point s.caret := by
  obtain ⟨anchor, caret⟩ := s
  obtain rfl : anchor = caret := by simpa [isEmpty] using h
  rfl

theorem eq_caret_of_isEmpty {s : Selection} (h : s.isEmpty = true) :
    s.lower = s.caret ∧ s.upper = s.caret := by
  have heq : s.anchor = s.caret := by simpa [isEmpty] using h
  simp [lower, upper, heq]

end Selection
end StructEdit
