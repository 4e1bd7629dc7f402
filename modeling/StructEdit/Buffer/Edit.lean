import StructEdit.Buffer.Basic

/-!
# Editing a buffer

`replace` puts a text in the place of the characters between two offsets. The
lines it touches are scanned at once, and the rows whose surroundings changed are
marked: a later flush scans them again in the right mode and goes on downwards as
far as it has to.
-/
namespace StructEdit

/-- Puts `left` in front of the first piece and `right` behind the last one. -/
def wrapPieces (left right : Text) : List Text → List Text
  | [] => [left ++ right]
  | [p] => [left ++ p ++ right]
  | p :: ps => (left ++ p) :: go ps
where
  go : List Text → List Text
    | [] => []
    | [p] => [p ++ right]
    | p :: ps => p :: go ps

theorem wrapPieces_ne_nil (left right : Text) (ps : List Text) : wrapPieces left right ps ≠ [] := by
  fun_cases wrapPieces left right ps <;> simp

namespace Buffer

/-- Marks a row to be scanned again, once, if there is such a row. -/
def markDirty (b : Buffer) (row : Nat) : Buffer :=
  if row < b.lineCount ∧ row ∉ b.dirty then { b with dirty := b.dirty ++ [row] } else b

/-- Moves everything noted about rows to where the rows went. -/
def shiftRows (b : Buffer) (σ : RowShift) : Buffer :=
  { b with dirty := b.dirty.filterMap σ.row?, changes := b.changes.shift σ }

/-- Notes that the rows after `first` change in number, from `removed` to `added`. -/
def resizeRows (b : Buffer) (first removed added : Nat) : Buffer :=
  if added < removed then
    let b' := b.shiftRows ⟨first + 1, removed - added, 0⟩
    { b' with changes := b'.changes.deleteRun (first + 1) (removed - added) }
  else
    let b' := b.shiftRows ⟨first + 1, 0, added - removed⟩
    { b' with changes := b'.changes.insertRun (first + 1) (added - removed) }

/-- Puts `pieces`, one a line, in the place of the text between two positions. -/
def splice (b : Buffer) (p q : Position) (pieces : List Text) : Buffer :=
  let texts := wrapPieces (Text.slice (b.lineText p.row) 0 p.column)
    (Text.sliceFrom (b.lineText q.row) q.column) pieces
  let fresh := Line.scanAll (b.modeAt p.row) texts
  let b' := b.resizeRows p.row (q.row - p.row) (pieces.length - 1)
  { lines := b.lines.take p.row ++ fresh ++ b.lines.drop (q.row + 1)
    lines_ne_nil := by
      simp [fresh, texts, Line.scanAll_ne_nil, wrapPieces_ne_nil]
    dirty := b'.dirty
    changes := b'.changes.mark (List.range' p.row pieces.length) }

/-- Puts `text` in the place of the characters between two offsets, in either order. -/
def replace (b : Buffer) (i j : Nat) (text : Text) : Buffer :=
  let p := b.position (min i j)
  let q := b.position (max i j)
  let pieces := Text.splitLines (Text.normalizeBreaks text)
  let b' := (b.splice p q pieces).markDirty p.row
  match pieces.length - 1 with
  | 0 => b'
  | last + 1 => (b'.markDirty (p.row + 1)).markDirty (p.row + (last + 1))

end Buffer
end StructEdit
