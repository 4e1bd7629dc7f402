import StructEdit.Document.Lists
import StructEdit.Document.Typing

/-!
# Typing delimiters

Opening, closing, quoting and deleting at the caret in a way that keeps pairs
together: an empty pair is deleted whole, and a single delimiter is stepped over
rather than deleted.
-/
namespace StructEdit

/-- Two characters that are deleted together. -/
def isEmptyPair : Text → Bool
  | ['(', ')'] | ['[', ']'] | ['\x7b', '\x7d'] | ['"', '"'] | ['\\', '"'] => true
  | _ => false

/-- A character that is not deleted alone. -/
def isDelimiter : Text → Bool
  | ['('] | ['['] | ['\x7b'] | ['"'] | [')'] | [']'] | ['\x7d'] => true
  | _ => false

namespace Document

/-- Inserts a pair and puts the caret before its last character. -/
def openPair (d : Document) (pair : Text) : Document :=
  let start := d.selection.lower
  d.perform fun d => (d.insert pair).setCaret (start + (pair.length - 1))

/-- Types a closing delimiter. If that is what comes next, the blanks before it go and the caret
steps over it. Inside a closed list the caret goes behind its closing bracket. Otherwise the
delimiter is put behind the last expression that follows. -/
def closeList (d : Document) (closer : Text) : Document :=
  let c := d.cursor.forwardSpace false
  if c.raw = closer then
    let start := d.caret
    d.perform fun d => (d.splice start c.start []).setCaret (start + 1)
  else
    match c.forwardList? with
    | some e => d.setCaret e.stop
    | none =>
      let place := (c.forwardSexps true).stop
      d.perform fun d => (d.splice place place closer).setCaret (place + 1)

/-- Deletes `count` characters from `start` on and puts the caret there. -/
def deletePair (d : Document) (start count : Nat) : Document :=
  d.perform fun d =>
    (d.deleteAt start count (some (.point d.caret)) (some (.point start))).setCaret start

/-- Deletes backwards. An escaped character goes with its backslash. -/
def backspacePair (d : Document) : Document :=
  let caret := d.caret
  if d.selection.isEmpty = false then d.backspace
  else if d.buffer.around caret 3 0 = ['\\', '"', '"'] then d.setCaret (caret - 1)
  else if 2 ≤ caret ∧ d.buffer.sliceWithin (caret - 2) (caret - 1) = ['\\'] then
    d.deletePair (caret - 2) 2
  else if isEmptyPair (d.buffer.around caret 1 1) then d.deletePair (caret - 1) 2
  else if isDelimiter (d.buffer.around caret 1 0) then d.setCaret (caret - 1)
  else d.backspace

/-- Deletes forwards. -/
def deletePairForward (d : Document) : Document :=
  let caret := d.caret
  if d.selection.isEmpty = false then d.delete
  else if isEmptyPair (d.buffer.sliceWithin caret (caret + 2)) then
    d.perform fun d => d.deleteAt caret 2 (some (.point caret)) (some (.point caret))
  else if isEmptyPair (d.buffer.around caret 1 1) then d.deletePair (caret - 1) 2
  else if isDelimiter (d.buffer.sliceWithin caret (caret + 1)) then d.setCaret (caret + 1)
  else d.delete

/-- Types a double quote: an empty string outside a string, a step over the closing quote at the end
of one, and an escaped quote anywhere else in it. -/
def quote (d : Document) : Document :=
  let caret := d.caret
  let c := d.cursor
  let inFront := c.start = caret ∧ (c.kind = .string ∨ c.kind = .stringStart)
  if d.selection.isEmpty = false then d.insert ['"']
  else if c.withinString = false ∨ inFront then
    d.perform fun d => (d.splice caret caret ['"', '"']).setCaret (caret + 1)
  else if (c.kind = .string ∨ c.kind = .stringEnd) ∧ c.stop = caret + 1 then
    d.setCaret (caret + 1)
  else d.perform fun d => (d.splice caret caret ['\\', '"']).setCaret (caret + 2)

end Document
end StructEdit
