import StructEdit.Text.Basic

/-!
# Brackets

The three families of brackets, with the dispatch openers counted among them.
Two delimiters match when they belong to one family, whichever of them opens.
-/
namespace StructEdit

inductive Bracket where
  | round
  | curly
  | square
  deriving DecidableEq, Repr

namespace Bracket

/-- The family of a delimiter; other texts belong to none. -/
def ofText? (s : Text) : Option Bracket :=
  match s with
  | ['('] | [')'] | ['#', '('] | ['#', '?', '('] | ['#', '?', '@', '('] => some .round
  | ['\x7b'] | ['\x7d'] | ['#', '\x7b'] => some .curly
  | ['['] | [']'] => some .square
  | _ => none

/-- The closing delimiter of the family. -/
def closer : Bracket → Text
  | .round => [')']
  | .curly => ['\x7d']
  | .square => [']']

def name : Bracket → String
  | .round => "round"
  | .curly => "curly"
  | .square => "square"

/-- Both texts are delimiters, and of one family. -/
def paired (a b : Text) : Bool :=
  match ofText? a, ofText? b with
  | some x, some y => x == y
  | _, _ => false

theorem ofText?_closer (b : Bracket) : ofText? b.closer = some b := by
  cases b <;> rfl

end Bracket
end StructEdit
