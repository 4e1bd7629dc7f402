import StructEdit.Cursor.Basic

/-!
# Skipping blanks

Forwards, blanks and line ends are skipped, and comments too when asked.
Backwards, a cursor never comes to rest between a comment and the end of its
line: it stays at the start of the line after the comment.
-/
namespace StructEdit

/-- Whether a token of this kind is skipped on the way forward. -/
def Kind.isSkipped (comments : Bool) : Kind → Bool
  | .blank | .lineEnd => true
  | .comment => comments
  | _ => false

namespace Cursor

/-- Goes on while the token is skipped, at most to the end. -/
def spaceAhead (comments : Bool) (before : List Placed) (here : Placed) : List Placed → Cursor
  | [] => ⟨before, here, []⟩
  | n :: after =>
    if here.kind.isSkipped comments then spaceAhead comments (here :: before) n after
    else ⟨before, here, n :: after⟩

/-- Goes back while the token before is skipped. A line end is not skipped when a comment stands
before it. -/
def spaceBehind (comments : Bool) (here : Placed) (after : List Placed) : List Placed → Cursor
  | [] => ⟨[], here, after⟩
  | p :: before =>
    if p.kind = .blank ∨ (p.kind.isSkipped comments ∧ kindBefore before ≠ .comment) then
      spaceBehind comments p (here :: after) before
    else ⟨p :: before, here, after⟩

/-- Skips blanks and line ends, and comments too when `comments` is set. -/
def forwardSpace (comments : Bool) (c : Cursor) : Cursor :=
  spaceAhead comments c.before c.here c.after

/-- Skips blanks and line ends backwards, and comments too when `comments` is set. -/
def backwardSpace (comments : Bool) (c : Cursor) : Cursor :=
  spaceBehind comments c.here c.after c.before

@[simp] theorem toList_spaceAhead (comments : Bool) (before : List Placed) (here : Placed)
    (after : List Placed) :
    (spaceAhead comments before here after).toList = before.reverse ++ here :: after := by
  induction after generalizing before here with
  | nil => rfl
  | cons n after ih =>
    simp only [spaceAhead]
    split
    · simp [ih]
    · rfl

@[simp] theorem toList_spaceBehind (comments : Bool) (here : Placed) (after before : List Placed) :
    (spaceBehind comments here after before).toList = before.reverse ++ here :: after := by
  induction before generalizing here after with
  | nil => rfl
  | cons p before ih =>
    simp only [spaceBehind]
    split
    · simp [ih]
    · rfl

theorem after_spaceAhead_le (comments : Bool) (before : List Placed) (here : Placed)
    (after : List Placed) : (spaceAhead comments before here after).after.length ≤ after.length := by
  induction after generalizing before here with
  | nil => exact Nat.le_refl _
  | cons n after ih =>
    simp only [spaceAhead]
    split
    · exact Nat.le_succ_of_le (ih _ _)
    · exact Nat.le_refl _

theorem before_spaceBehind_le (comments : Bool) (here : Placed) (after before : List Placed) :
    (spaceBehind comments here after before).before.length ≤ before.length := by
  induction before generalizing here after with
  | nil => exact Nat.le_refl _
  | cons p before ih =>
    simp only [spaceBehind]
    split
    · exact Nat.le_succ_of_le (ih _ _)
    · exact Nat.le_refl _

end Cursor
end StructEdit
