import StructEdit.Text.Basic
import StructEdit.Text.Blank

/-!
# Sets of characters

The sets that a pattern can ask for: ranges, the blank characters, and what unions,
intersections, differences and complements make of them. `contains` is their meaning.

Membership changes only where a range begins and behind its end. Two sets are
therefore the same when they agree at these few places, and `same` tests that.
-/
namespace StructEdit

inductive CharSet where
  | none
  | range (lo hi : Char)
  | blank
  | union (a b : CharSet)
  | inter (a b : CharSet)
  | diff (a b : CharSet)
  | symmDiff (a b : CharSet)
  | compl (a : CharSet)
  deriving DecidableEq, Repr

namespace CharSet

def contains : CharSet → Char → Bool
  | .none, _ => false
  | .range lo hi, c => decide (lo ≤ c) && decide (c ≤ hi)
  | .blank, c => Text.isBlank c
  | .union a b, c => a.contains c || b.contains c
  | .inter a b, c => a.contains c && b.contains c
  | .diff a b, c => a.contains c && !b.contains c
  | .symmDiff a b, c => a.contains c != b.contains c
  | .compl a, c => !a.contains c

def single (c : Char) : CharSet := .range c c

def ofList (cs : List Char) : CharSet :=
  cs.foldr (fun c k => .union (single c) k) .none

/-- Every character but the line break. -/
def dot : CharSet := .compl (single '\n')

/-- The characters at which membership may change. -/
def edges : CharSet → List Char
  | .none => []
  | .range lo hi => [lo, Char.ofNat (hi.toNat + 1)]
  | .blank => Text.blankRanges.flatMap fun (lo, hi) => [Char.ofNat lo, Char.ofNat (hi + 1)]
  | .union a b => a.edges ++ b.edges
  | .inter a b => a.edges ++ b.edges
  | .diff a b => a.edges ++ b.edges
  | .symmDiff a b => a.edges ++ b.edges
  | .compl a => a.edges

/-- Whether the sets have the same members. The first character and the first one behind the
surrogates are edges of every set. -/
def same (a b : CharSet) : Bool :=
  (Char.ofNat 0 :: Char.ofNat 0xE000 :: (a.edges ++ b.edges)).all fun c =>
    a.contains c == b.contains c

theorem contains_single (c d : Char) : (single c).contains d = decide (d = c) := by
  have h : (c ≤ d ∧ d ≤ c) ↔ d = c :=
    ⟨fun h => Char.le_antisymm h.2 h.1, fun h => h ▸ ⟨Char.le_refl d, Char.le_refl d⟩⟩
  simp only [contains, single]
  rw [← Bool.decide_and, decide_eq_decide]
  exact h

theorem contains_ofList (cs : List Char) (d : Char) : (ofList cs).contains d = cs.elem d := by
  induction cs with
  | nil => rfl
  | cons c cs ih =>
    rw [ofList, List.foldr_cons, contains, contains_single, List.elem_cons, ← ofList, ih]
    rfl

theorem contains_dot (c : Char) : dot.contains c = decide (c ≠ '\n') := by
  rw [dot, contains, contains_single, decide_not]

end CharSet
end StructEdit
