import StructEdit.Cursor.Enclosing
import StructEdit.Document.Basic

/-!
# Slurping and barfing

A delimiter of the list around the caret moves over one expression, outwards to take
it in and inwards to push it out. Where there is no such expression nothing happens.
-/
namespace StructEdit.Document

/-- Takes the delimiter that starts at `source` to an offset further on. -/
def carryForward (d : Document) (delimiter : Text) (source target : Nat) : Document :=
  d.perform fun d =>
    (d.splice target target delimiter).splice source (source + delimiter.length) []

/-- Takes the delimiter that starts at `source` to an offset further back. -/
def carryBackward (d : Document) (delimiter : Text) (source target : Nat) : Document :=
  d.perform fun d =>
    (d.splice source (source + delimiter.length) []).splice target target delimiter

/-- Takes the expression after the list into it. -/
def slurpForward (d : Document) : Document :=
  match d.cursor.forwardList? with
  | none => d
  | some e =>
    let r := e.next.forwardSexp false
    if r.found then d.carryForward e.raw e.start (r.cursor.backwardSpace false).start else d

/-- Takes the expression before the list into it. -/
def slurpBackward (d : Document) : Document :=
  match d.cursor.backwardList? with
  | none => d
  | some inside =>
    let o := inside.prev
    let r := o.backwardSexp false
    if r.found then d.carryBackward o.raw o.start (r.cursor.forwardSpace false).start else d

/-- Pushes the last expression of the list out of it. -/
def barfForward (d : Document) : Document :=
  match d.cursor.forwardList? with
  | none => d
  | some e =>
    let r := e.backwardSexp false
    if r.found then d.carryBackward e.raw e.start (r.cursor.backwardSpace true).start else d

/-- Pushes the first expression of the list out of it. -/
def barfBackward (d : Document) : Document :=
  match d.cursor.backwardList? with
  | none => d
  | some inside =>
    let o := inside.prev
    let r := inside.forwardSexp false
    if r.found then d.carryForward o.raw o.start (r.cursor.forwardSpace false).start else d

end StructEdit.Document
