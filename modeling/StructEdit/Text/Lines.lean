import StructEdit.Text.Basic

/-!
# Lines of a text

A text breaks into lines at `\n`, and a `\r` directly in front of a break
belongs to the break. Any other `\r` is an ordinary character. There is always
one line more than there are breaks, so an empty text has one empty line.
-/
namespace StructEdit.Text

/-- Puts `c` in front of the first line. -/
def consLine (c : Char) : List Text → List Text
  | [] => [[c]]
  | l :: ls => (c :: l) :: ls

def splitLines : Text → List Text
  | [] => [[]]
  | '\r' :: '\n' :: s => [] :: splitLines s
  | '\n' :: s => [] :: splitLines s
  | c :: s => consLine c (splitLines s)

/-- The lines with a `\n` between each two of them. -/
def joinLines : List Text → Text
  | [] => []
  | [l] => l
  | l :: ls => l ++ '\n' :: joinLines ls

/-- Every `\r\n` becomes `\n`. One pass: the `\r` of `\r\r\n` that is left over stays. -/
def normalizeBreaks : Text → Text
  | [] => []
  | '\r' :: '\n' :: s => '\n' :: normalizeBreaks s
  | c :: s => c :: normalizeBreaks s

theorem consLine_ne_nil (c : Char) (ls : List Text) : consLine c ls ≠ [] := by
  cases ls <;> simp [consLine]

theorem splitLines_ne_nil (s : Text) : splitLines s ≠ [] := by
  fun_cases splitLines s <;> simp [consLine_ne_nil]

@[simp] theorem joinLines_singleton (l : Text) : joinLines [l] = l := rfl

theorem joinLines_cons (l : Text) {ls : List Text} (h : ls ≠ []) :
    joinLines (l :: ls) = l ++ '\n' :: joinLines ls := by
  cases ls with
  | nil => exact absurd rfl h
  | cons _ _ => rfl

end StructEdit.Text
