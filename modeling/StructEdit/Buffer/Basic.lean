import StructEdit.Buffer.Changes
import StructEdit.Buffer.Line
import StructEdit.Text.Lines

/-!
# Buffers

A buffer is a non-empty list of scanned lines, with the rows that wait to be
scanned again and the bookkeeping of what changed. Offsets count the characters of
the whole text, each line break as one. The largest offset is the end of the last
line, and larger ones stand for it.
-/
namespace StructEdit

structure Position where
  row : Nat
  column : Nat
  deriving DecidableEq, Repr

/-- The row and column of an offset in lines that are joined by breaks. -/
def locate : List Line → Nat → Position
  | [], _ => ⟨0, 0⟩
  | [l], n => ⟨0, min n l.length⟩
  | l :: ls, n =>
    if n ≤ l.length then ⟨0, n⟩
    else
      let p := locate ls (n - (l.length + 1))
      ⟨p.row + 1, p.column⟩

/-- The room that the lines take, each with its break. -/
def extent : List Line → Nat
  | [] => 0
  | l :: ls => l.length + 1 + extent ls

structure Buffer where
  lines : List Line
  lines_ne_nil : lines ≠ []
  /-- Rows that have to be scanned again, in the order in which they were marked. -/
  dirty : List Nat
  changes : Changes

namespace Buffer

def empty : Buffer := ⟨[Line.scan [] .code], by simp, [], .none⟩

def lineCount (b : Buffer) : Nat := b.lines.length

def lineText (b : Buffer) (row : Nat) : Text :=
  (b.lines[row]?).elim [] Line.text

def lineLength (b : Buffer) (row : Nat) : Nat := (b.lineText row).length

/-- The mode that a row should be scanned in: the one that the row above ends in. -/
def modeAt (b : Buffer) : Nat → Mode
  | 0 => .code
  | row + 1 => (b.lines[row]?).elim .code Line.stop

def position (b : Buffer) (offset : Nat) : Position := locate b.lines offset

/-- The offset of the first character of a row. -/
def rowOffset (b : Buffer) (row : Nat) : Nat := extent (b.lines.take row)

def maxOffset (b : Buffer) : Nat := extent b.lines - 1

def text (b : Buffer) : Text := Text.joinLines (b.lines.map Line.text)

/-- The text between two positions, the first of which comes first. -/
def textBetween (b : Buffer) (p q : Position) : Text :=
  if p.row = q.row then Text.slice (b.lineText p.row) p.column q.column
  else
    Text.joinLines
      (Text.sliceFrom (b.lineText p.row) p.column ::
        ((b.lines.take q.row).drop (p.row + 1)).map Line.text ++
        [Text.slice (b.lineText q.row) 0 q.column])

/-- The text between two offsets, in either order. -/
def slice (b : Buffer) (i j : Nat) : Text :=
  b.textBetween (b.position (min i j)) (b.position (max i j))

/-- The text between two offsets that both lie in the buffer, no text otherwise. -/
def sliceWithin (b : Buffer) (i j : Nat) : Text :=
  if b.maxOffset < max i j then [] else b.slice i j

/-- The noted changes, and the buffer without them. -/
def takeChanges (b : Buffer) : Changes × Buffer :=
  (b.changes, { b with changes := .none })

end Buffer
end StructEdit
