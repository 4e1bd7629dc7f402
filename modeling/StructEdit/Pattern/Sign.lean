import StructEdit.Pattern.Basic

/-!
# The signs of a written pattern

A backslash and the character behind it are one sign. They stand for a line break, tab
or carriage return, for the blank characters (`\s`), for the start or end of a word
(`\<`, `\>`), or for the character itself. Letters and digits have no other escaped
form, and neither have characters beyond ASCII.
-/
namespace StructEdit.Pattern

inductive Sign where
  | plain (c : Char)
  | escaped (c : Char)
  | blank
  | look (a : Anchor)
  deriving DecidableEq, Repr

namespace Sign

/-- The character that the sign stands for, if it stands for one. -/
def char? : Sign → Option Char
  | .plain c => some c
  | .escaped c => some c
  | .blank => none
  | .look _ => none

/-- The sign as a member of a class; a place is no member of a class. -/
def set? : Sign → Option CharSet
  | .plain c => some (.single c)
  | .escaped c => some (.single c)
  | .blank => some .blank
  | .look _ => none

/-- The sign that a backslash and `c` write. -/
def ofEscape? (c : Char) : Option Sign :=
  match c with
  | 'n' => some (.escaped '\n')
  | 't' => some (.escaped '\t')
  | 'r' => some (.escaped '\r')
  | 's' => some .blank
  | '<' => some (.look .wordStart)
  | '>' => some (.look .wordEnd)
  | c => if c.isAlphanum || 128 ≤ c.toNat then none else some (.escaped c)

end Sign

def signs? : Text → Option (List Sign)
  | [] => some []
  | ['\\'] => none
  | '\\' :: c :: s => (Sign.ofEscape? c).bind fun a => (signs? s).map (a :: ·)
  | c :: s => (signs? s).map (.plain c :: ·)

end StructEdit.Pattern
