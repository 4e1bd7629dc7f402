import StructEdit.Document.Basic

/-!
# Plain editing

Typing and deleting without regard to structure. Every operation is one
transaction.
-/
namespace StructEdit.Document

def deleteSelection (d : Document) : Document :=
  d.perform fun d =>
    if d.selection.isEmpty then d
    else
      let start := d.selection.lower
      (d.deleteAt start (d.selection.upper - start) (some d.selection)
        (some (.point start))).setCaret start

/-- Puts `text` in the place of the selection and the caret after it. -/
def insert (d : Document) (text : Text) : Document :=
  let s := Text.normalizeBreaks text
  d.perform fun d =>
    let d := if d.selection.isEmpty then d else d.deleteSelection
    let stop := d.caret + s.length
    ((d.insertAt d.caret s (some d.selection) (some (.point stop))).1.setCaret stop).keepColumn

/-- Deletes the selection, or the character before the caret. -/
def backspace (d : Document) : Document :=
  d.perform fun d =>
    let d' :=
      if d.selection.isEmpty = false then d.deleteSelection
      else if 0 < d.caret then
        (d.deleteAt (d.caret - 1) 1 (some (.point d.caret))
          (some (.point (d.caret - 1)))).setCaret (d.caret - 1)
      else d
    d'.keepColumn

/-- Deletes the selection, or the character after the caret. -/
def delete (d : Document) : Document :=
  d.perform fun d =>
    let d' :=
      if d.selection.isEmpty = false then d.deleteSelection
      else if d.caret < d.maxOffset then
        (d.deleteAt d.caret 1 (some (.point d.caret)) (some (.point d.caret))).setCaret d.caret
      else d
    d'.keepColumn

/-- Replaces the whole text and puts the caret at its end. -/
def replaceAll (d : Document) (text : Text) : Document :=
  let s := Text.normalizeBreaks text
  d.perform fun d => ((d.splice 0 d.maxOffset s).setCaret s.length).keepColumn

/-- Breaks the line at the caret and indents the new one. -/
def newline (d : Document) : Document :=
  let column := d.buffer.indentAt d.caret d.indent
  d.sealHistory.insert ('\n' :: List.replicate column ' ')

end StructEdit.Document
