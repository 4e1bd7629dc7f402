import StructEdit.History.Basic
import StructEdit.Indent.Column

/-!
# Documents

A document is a buffer with a selection, the column that the caret tries to keep,
the stack of selections that grew out of each other, settings for indentation, and
the undo history.

Edits are recorded while `recording` is set. `transaction` runs a piece of work with
recording on, collects its edits into one undo step and flushes the buffer, and a
transaction inside a transaction joins the outer step.
-/
namespace StructEdit

structure Document extends Pane where
  /-- Selections made by growing, the last one first. -/
  growth : List Selection
  /-- The column that the caret tries to keep on its way up and down. -/
  caretColumn : Nat
  indent : IndentSettings
  history : History
  recording : Bool

namespace Document

def ofBuffer (b : Buffer) : Document where
  buffer := b
  selection := .point 0
  growth := []
  caretColumn := 0
  indent := .default
  history := .empty
  recording := false

def empty : Document := ofBuffer .empty

/-- A document with the given text and the caret at its start. -/
def ofText (s : Text) : Document := ofBuffer (.ofText s)

def withIndent (d : Document) (s : IndentSettings) : Document := { d with indent := s }

def text (d : Document) : Text := d.buffer.text

def caret (d : Document) : Nat := d.selection.caret

def maxOffset (d : Document) : Nat := d.buffer.maxOffset

def select (d : Document) (s : Selection) : Document := { d with toPane := d.toPane.select s }

def setCaret (d : Document) (offset : Nat) : Document := d.select (.point offset)

/-- Moves the anchor alone. -/
def setAnchor (d : Document) (offset : Nat) : Document :=
  { d with selection := ⟨min offset d.maxOffset, d.caret⟩ }

/-- Moves the caret alone, which stretches the selection. -/
def stretchTo (d : Document) (offset : Nat) : Document :=
  { d with selection := ⟨d.selection.anchor, min offset d.maxOffset⟩ }

/-- The cursor at the caret. -/
def cursor (d : Document) : Cursor := d.buffer.cursorAt d.caret

/-- Makes the column of the caret the one it tries to keep. -/
def keepColumn (d : Document) : Document :=
  { d with caretColumn := (d.buffer.position d.caret).column }

def flush (d : Document) : Document := { d with buffer := d.buffer.flush }

def record (d : Document) (s : Step) : Document := { d with history := d.history.add s }

/-- Puts `text` in the place of the characters between two offsets. The selections are for the
undo step only. -/
def change (d : Document) (i j : Nat) (text : Text) (before after : Option Selection) : Document :=
  let changed := { d with toPane := d.toPane.replace i j text }
  if d.recording then
    changed.record (.edit ⟨min i j, Text.normalizeBreaks text, d.buffer.slice i j⟩
      ⟨before, after, false⟩)
  else changed

/-- A change that leaves it to the transaction to restore the selection. -/
def splice (d : Document) (i j : Nat) (text : Text) : Document := d.change i j text none none

/-- Inserts a text, and gives the room it was given. -/
def insertAt (d : Document) (offset : Nat) (text : Text) (before after : Option Selection) :
    Document × Nat :=
  let s := Text.normalizeBreaks text
  (d.change offset offset s before after, s.length)

/-- Deletes `count` characters. -/
def deleteAt (d : Document) (offset count : Nat) (before after : Option Selection) : Document :=
  d.change offset (offset + count) [] before after

/-- Runs `work` with its steps collected into one. -/
def grouped {α : Type} (work : Document → Document × α) (d : Document) : Document × α :=
  let (opened, history) := d.history.beginGroup
  let (done, result) := work { d with history }
  if opened then
    ({ done with history := done.history.endGroup d.selection done.selection }, result)
  else (done, result)

/-- Runs `work` as one recorded step, and flushes. -/
def transaction {α : Type} (work : Document → Document × α) (d : Document) : Document × α :=
  let (done, result) := grouped work { d with recording := true }
  ({ done with recording := d.recording }.flush, result)

/-- A transaction that gives nothing back. -/
def perform (work : Document → Document) (d : Document) : Document :=
  (transaction (fun d => (work d, ())) d).1

/-- Takes the last step back. -/
def undo (d : Document) : Document :=
  let undone :=
    match d.history.undos with
    | [] => d
    | s :: rest =>
      { d with
        toPane := s.undo d.toPane
        history := { d.history with undos := rest, redos := s :: d.history.redos } }
  undone.flush.keepColumn

/-- Makes the last step taken back once more. -/
def redo (d : Document) : Document :=
  let redone :=
    match d.history.redos with
    | [] => d
    | s :: rest =>
      { d with
        toPane := s.redo d.toPane
        history := { d.history with undos := s :: d.history.undos, redos := rest } }
  redone.flush.keepColumn

/-- Keeps later steps from merging with the last one. -/
def sealHistory (d : Document) : Document := { d with history := d.history.sealTop }

end Document
end StructEdit
