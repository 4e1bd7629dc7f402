import StructEdit.Cursor.Enclosing
import StructEdit.Document.Basic

/-!
# Growing and shrinking the selection

A selection grows from a token to the contents of the list around it, to the whole
list, and so on outwards. The selections on the way are kept on a stack, and
shrinking goes back along it. A stack that does not end in the current selection is
of no use any more.
-/
namespace StructEdit

/-- The contents of the list around a range. -/
def Buffer.contentsAround? (b : Buffer) (start stop : Nat) : Option Selection :=
  match (b.cursorAt start).backwardList?, (b.cursorAt stop).forwardList? with
  | some o, some e => some ⟨o.start, e.start⟩
  | _, _ => none

/-- The list that has the given contents, with its delimiters. -/
def Buffer.listOf? (b : Buffer) (contents : Selection) : Option Selection :=
  let e := b.cursorAt contents.caret
  match (b.cursorAt contents.anchor).backwardUpList? with
  | some o => if e.kind = .closing then some ⟨o.start, e.stop⟩ else none
  | none => none

/-- The unit at a cursor where nothing is selected: from an opening bracket the list, behind the
last expression of a list that expression, and otherwise the token. -/
def Cursor.unit? (c : Cursor) (caret : Nat) : Option Selection :=
  match c.kind with
  | .opening => c.next.forwardList?.map fun e => ⟨c.start, e.stop⟩
  | .closing =>
    let r := c.backwardSexp false
    if r.found then some ⟨r.cursor.start, caret⟩ else none
  | _ => some ⟨c.start, c.stop⟩

/-- The next larger selection. -/
def Buffer.grown? (b : Buffer) (s : Selection) : Option Selection :=
  let c := b.cursorAt s.lower
  if s.isEmpty = true ∧ c.onSpace = false then c.unit? s.caret
  else
    match b.contentsAround? s.lower s.upper with
    | none => none
    | some contents =>
      if contents.lower = s.lower ∧ contents.upper = s.upper then b.listOf? contents
      else some contents

namespace Document

def grow (d : Document) : Document :=
  let current := d.selection
  let d := if d.growth.head? = some current then d else { d with growth := [current] }
  match d.buffer.grown? current with
  | none => d
  | some s =>
    let d := d.select s
    { d with growth := d.selection :: d.growth }

def shrink (d : Document) : Document :=
  match d.growth with
  | [] => d
  | top :: rest =>
    match rest with
    | previous :: _ =>
      if top = d.selection then { d with growth := rest }.select previous
      else { d with growth := [] }
    | [] => { d with growth := [] }

end Document
end StructEdit
