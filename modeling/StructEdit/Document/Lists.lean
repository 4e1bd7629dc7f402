import StructEdit.Bracket
import StructEdit.Cursor.Enclosing
import StructEdit.Document.Refusal

/-!
# Wrapping, splitting, joining and splicing

Offsets are worked out before the first edit, and edits in several places are
made from the back to the front, so that the offsets in front stay right. Each
command is one transaction.
-/
namespace StructEdit

/-- The text of `back` characters before an offset and `ahead` after it; no text when the range
leaves the buffer. -/
def Buffer.around (b : Buffer) (offset back ahead : Nat) : Text :=
  if back ≤ offset then b.sliceWithin (offset - back) (offset + ahead) else []

/-- The offset lies inside the comment under the cursor, or right after a comment. -/
def Cursor.inComment (c : Cursor) (offset : Nat) : Bool :=
  (c.kind == .comment && decide (c.start < offset)) || c.prevKind == .comment

namespace Document

/-- Puts the selection, or the expression after the caret, between two delimiters. -/
def wrap (d : Document) (opener closer : Text) : Outcome Unit :=
  let sel := d.selection
  let c := d.buffer.cursorAt sel.upper
  if c.withinString then .refused d .wrap
  else
    let stop := if sel.isEmpty then (c.forwardSexp true).cursor.start else sel.upper
    let wrapped := d.perform fun d =>
      let d := (d.splice stop stop closer).splice sel.lower sel.lower opener
      if sel.isEmpty then d.setCaret (sel.lower + opener.length)
      else d.select (sel.shift opener.length)
    .done wrapped ()

/-- Splits a string at an offset, but not between a backslash and the quote after it. -/
def splitString (d : Document) (offset : Nat) : Document :=
  let place := if d.buffer.around offset 1 1 = ['\\', '"'] then offset + 1 else offset
  d.perform fun d => (d.splice place place ['"', ' ', '"']).setCaret (place + 1)

/-- Splits the list or the string around the caret in two. -/
def split (d : Document) : Document :=
  if d.cursor.withinString then d.splitString d.caret
  else
    let c := d.cursor.backwardSpace true
    let stop := (c.forwardSpace true).start
    match c.backwardList? with
    | none => d
    | some o =>
      match o.forwardList? with
      | none => d
      | some e =>
        d.perform fun d =>
          (d.splice c.start stop (e.raw ++ ' ' :: o.prevToken.raw)).setCaret (c.start + 1)

structure Joint where
  start : Nat
  stop : Nat
  text : Text
  caret : Nat

/-- How the token before a gap and the token after it are joined; the gap runs from `gapStart` to
`gapStop`. Two strings become one, and so do two lists of one family. -/
def joint? (left right : Token) (gapStart gapStop : Nat) : Option Joint :=
  match left.kind, right.kind with
  | .string, .string | .string, .stringStart | .stringEnd, .string | .stringEnd, .stringStart =>
    some ⟨gapStart - 1, gapStop + 1, [], gapStart - 1⟩
  | .closing, .opening =>
    if Bracket.paired left.raw right.raw then
      let start := gapStart - left.length
      some ⟨start, gapStop + right.length, [' '], start + 1⟩
    else none
  | _, _ => none

/-- Joins the expressions on both sides of the caret. -/
def join (d : Document) : Outcome Unit :=
  let c := d.cursor.backwardSpace true
  let e := c.forwardSpace true
  if c.withinString then .refused d .join
  else
    match joint? c.prevToken e.here.token c.start e.start with
    | none => .done d ()
    | some j => .done (d.perform fun d => (d.splice j.start j.stop j.text).setCaret j.caret) ()

/-- Removes the delimiters of the list around an offset. -/
def spliceAt (d : Document) (offset : Nat) : Outcome Unit :=
  let c := d.buffer.cursorAt offset
  if c.withinString then .refused d .splice
  else
    match c.backwardList? with
    | none => .done d ()
    | some o =>
      match o.forwardList? with
      | none => .done d ()
      | some e =>
        if Bracket.paired o.prevToken.raw e.raw then
          let opener := o.prevToken.length
          let spliced := d.perform fun d =>
            ((d.splice e.start (e.start + e.here.token.length) []).splice
              (o.start - opener) o.start []).setCaret (offset - opener)
          .done spliced ()
        else .done d ()

/-- Removes the delimiters of the list around the caret. -/
def spliceList (d : Document) : Outcome Unit := d.spliceAt d.caret

/-- Deletes from the start of the list around an offset up to the offset, and gives the place of
the cut. -/
def killBackward (d : Document) (offset : Nat) : Outcome Nat :=
  let c := d.buffer.cursorAt offset
  if c.withinString then .refused d .killBackward
  else
    match c.backwardList? with
    | none => .done d offset
    | some o => .done (d.perform fun d => (d.splice o.start offset []).setCaret o.start) o.start

/-- Deletes from an offset to the end of the list around it, and gives the offset. Inside a comment
a line break stays, so that the closing bracket does not get into the comment. -/
def killForward (d : Document) (offset : Nat) : Outcome Nat :=
  let c := d.buffer.cursorAt offset
  if c.withinString then .refused d .killForward
  else
    match c.forwardList? with
    | none => .done d offset
    | some e =>
      let text := if c.inComment offset then ['\n'] else []
      .done (d.perform fun d => (d.splice offset e.start text).setCaret offset) offset

/-- Deletes what stands before the caret in its list, and then the delimiters of the list. -/
def spliceKillingBackward (d : Document) : Outcome Unit :=
  d.transaction fun d' => (d'.killBackward d.caret).andThen fun d' offset => d'.spliceAt offset

/-- Deletes what stands after the caret in its list, and then the delimiters of the list. -/
def spliceKillingForward (d : Document) : Outcome Unit :=
  d.transaction fun d' => (d'.killForward d.caret).andThen fun d' offset => d'.spliceAt offset

end Document
end StructEdit
