import StructEdit.Buffer.Edit

/-!
# Flushing a buffer

A flush is one pass down the lines. A row is scanned again when it is marked, or
when the row above was scanned again and now ends in another mode than the one
this row was scanned in. All other rows stay as they are.
-/
namespace StructEdit

/-- One pass from `row` down. `above` is the mode that the row above ends in, and `fresh` says
whether it was scanned in this pass. Returns the lines and the rows that were scanned. -/
def rescan (dirty : List Nat) (row : Nat) (above : Mode) (fresh : Bool) :
    List Line → List Line × List Nat
  | [] => ([], [])
  | l :: ls =>
    if row ∈ dirty ∨ (fresh = true ∧ l.start ≠ above) then
      let l' := Line.scan l.text above
      let (ls', rows) := rescan dirty (row + 1) l'.stop true ls
      (l' :: ls', row :: rows)
    else
      let (ls', rows) := rescan dirty (row + 1) l.stop false ls
      (l :: ls', rows)

@[simp] theorem map_text_rescan (dirty : List Nat) (row : Nat) (above : Mode) (fresh : Bool)
    (ls : List Line) : (rescan dirty row above fresh ls).1.map Line.text = ls.map Line.text := by
  induction ls generalizing row above fresh with
  | nil => rfl
  | cons l ls ih =>
    simp only [rescan]
    split <;> simp [ih]

@[simp] theorem length_rescan (dirty : List Nat) (row : Nat) (above : Mode) (fresh : Bool)
    (ls : List Line) : (rescan dirty row above fresh ls).1.length = ls.length := by
  rw [← List.length_map (f := Line.text), map_text_rescan, List.length_map]

namespace Buffer

/-- Scans again what has to be, and notes the rows scanned as changed. -/
def flush (b : Buffer) : Buffer :=
  let r := rescan b.dirty 0 .code false b.lines
  { lines := r.1
    lines_ne_nil := by
      rw [ne_eq, ← List.length_eq_zero_iff, length_rescan, List.length_eq_zero_iff]
      exact b.lines_ne_nil
    dirty := []
    changes := b.changes.mark r.2 }

/-- A flushed buffer with the given text and nothing noted. -/
def ofText (s : Text) : Buffer :=
  ((empty.replace 0 0 (Text.normalizeBreaks s)).flush.takeChanges).2

@[simp] theorem text_flush (b : Buffer) : b.flush.text = b.text := by
  simp [flush, text]

end Buffer
end StructEdit
