import StructEdit.Cursor.Enclosing
import StructEdit.Document.Basic

/-!
# Raising and convoluting

Raising puts the expression at the caret in the place of the list around it.
Convoluting swaps the list around the caret with the list around that one: what
stands before the caret becomes the head of the outer list.
-/
namespace StructEdit.Document

def raise (d : Document) : Document :=
  let c := d.cursor.forwardSpace true
  let r := c.forwardSexp true
  if d.selection.isEmpty = false ∨ r.found = false then d
  else
    let o := c.backwardList?.getD c
    let e := r.cursor.forwardList?.getD r.cursor
    if o.prevKind = .opening ∧ e.kind = .closing then
      let raised := d.buffer.slice c.start r.cursor.start
      d.perform fun d => (d.splice o.prev.start e.stop raised).setCaret o.prev.start
    else d

/-- The two lists around a cursor: the openers and closers of the inner and of the outer one. -/
structure Nesting where
  innerOpener : Cursor
  innerCloser : Cursor
  outerOpener : Cursor
  outerCloser : Cursor

def nesting? (c : Cursor) : Option Nesting := do
  let inside ← c.backwardList?
  let innerCloser ← c.forwardList?
  let innerOpener := inside.prev
  let outside ← innerOpener.backwardList?
  let outerOpener ← outside.backwardUpList?
  let outerCloser ← innerOpener.forwardList?
  return ⟨innerOpener, innerCloser, outerOpener, outerCloser⟩

def convolute (d : Document) : Document :=
  if d.selection.isEmpty = false then d
  else
    match nesting? d.cursor with
    | none => d
    | some n =>
      let caret := d.caret
      let head := n.innerOpener.raw ++ d.buffer.slice n.innerOpener.next.start caret
      d.perform fun d =>
        ((((d.splice n.outerCloser.stop n.outerCloser.stop n.innerCloser.raw).splice
          n.innerCloser.start n.innerCloser.stop []).splice
          n.innerOpener.start caret []).splice
          n.outerOpener.start n.outerOpener.start head).setCaret caret

end StructEdit.Document
