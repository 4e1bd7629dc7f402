import StructEdit.Document.Basic

/-!
# Moving the caret

With `clear` set a motion drags the anchor along. Otherwise it stretches the
selection. Motions up and down aim at the remembered column; all others remember
the column they come to.
-/
namespace StructEdit.Document

def moveTo (d : Document) (offset : Nat) (clear : Bool) : Document :=
  let d := d.stretchTo offset
  if clear then { d with selection := .point d.caret } else d

/-- One character to the left; with `clear`, a selection shrinks to its left end instead. -/
def left (d : Document) (clear : Bool) : Document :=
  let moved :=
    if clear = true ∧ d.selection.isEmpty = false then d.setCaret d.selection.lower
    else d.moveTo (d.caret - 1) clear
  moved.keepColumn

/-- One character to the right; with `clear`, a selection shrinks to its right end instead. -/
def right (d : Document) (clear : Bool) : Document :=
  let moved :=
    if clear = true ∧ d.selection.isEmpty = false then d.setCaret d.selection.upper
    else d.moveTo (d.caret + 1) clear
  moved.keepColumn

/-- To the start of the line. -/
def home (d : Document) (clear : Bool) : Document :=
  (d.moveTo (d.caret - (d.buffer.position d.caret).column) clear).keepColumn

/-- To the end of the line. -/
def toLineEnd (d : Document) (clear : Bool) : Document :=
  let p := d.buffer.position d.caret
  (d.moveTo (d.caret - p.column + d.buffer.lineLength p.row) clear).keepColumn

def toStart (d : Document) (clear : Bool) : Document := (d.moveTo 0 clear).keepColumn

def toEnd (d : Document) (clear : Bool) : Document := (d.moveTo d.maxOffset clear).keepColumn

/-- The offset in a row at the remembered column, or at the end of a shorter row. -/
def offsetInRow (d : Document) (row : Nat) : Nat :=
  d.buffer.rowOffset row + min d.caretColumn (d.buffer.lineLength row)

/-- To the line above; from the first line, to the start. -/
def up (d : Document) (clear : Bool) : Document :=
  match (d.buffer.position d.caret).row with
  | 0 => d.moveTo 0 clear
  | above + 1 => d.moveTo (d.offsetInRow above) clear

/-- To the line below; from the last line, to the end. -/
def down (d : Document) (clear : Bool) : Document :=
  let row := (d.buffer.position d.caret).row
  if row + 1 < d.buffer.lineCount then d.moveTo (d.offsetInRow (row + 1)) clear
  else d.moveTo d.maxOffset clear

def selectAll (d : Document) : Document :=
  { d with selection := ⟨0, d.maxOffset⟩ }.keepColumn

/-- The caret stands at the very end and nothing is selected. -/
def canReturn (d : Document) : Bool :=
  d.selection.isEmpty && d.caret == d.maxOffset

end StructEdit.Document
