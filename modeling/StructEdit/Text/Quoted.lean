import StructEdit.Text.Basic
import StructEdit.Text.Extending
import StructEdit.Text.Unprintable

/-!
# Quoted text

How a text is shown inside a message: between double quotes, on one line, with
quotes, backslashes, unprintable and extending characters escaped. The other
characters of any script stand for themselves.
-/
namespace StructEdit.Text

/-- A character that would be lost, or change its neighbour, if it were shown as it is. -/
def isHidden (c : Char) : Bool := isExtending c || isUnprintable c

/-- The digits of the code point in lower-case hexadecimal, between braces. -/
def escapeCode (c : Char) : Text :=
  "\\u\x7b".toList ++ Nat.toDigits 16 c.toNat ++ "\x7d".toList

def escapeChar (c : Char) : Text :=
  match c with
  | '"' => "\\\"".toList
  | '\\' => "\\\\".toList
  | '\n' => "\\n".toList
  | '\t' => "\\t".toList
  | '\r' => "\\r".toList
  | c => if c.toNat = 0 then "\\0".toList else if isHidden c then escapeCode c else [c]

def quoted (s : Text) : Text :=
  '"' :: s.flatMap escapeChar ++ ['"']

end StructEdit.Text
