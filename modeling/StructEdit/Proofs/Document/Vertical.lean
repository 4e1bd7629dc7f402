import StructEdit.Proofs.Buffer.Positions
import StructEdit.Proofs.Document.Standing

/-!
# Up and down

On its way up and down the caret aims at one column, which it tries to keep. In a row that is too
short for it the caret stands at the end, and the column is remembered all the same. So a document
in the middle of such a way is known from where the way began and from the row alone: it is the
document from there, with the caret as near to the remembered column as the row allows. One motion
leads from a row to the next one, and a row of motions counts the rows.
-/
namespace StructEdit

namespace Document

variable {d : Document} {row : Nat}

/-- The document with the caret in a row, at the remembered column or at the end of a shorter row. -/
def inRow (d : Document) (row : Nat) : Document :=
  { d with selection := .point (d.offsetInRow row) }

theorem exists_line (h : row < d.buffer.lineCount) : ∃ l, d.buffer.lines[row]? = some l ∧
    d.offsetInRow row = d.buffer.rowOffset row + min d.caretColumn l.length := by
  have hl : d.buffer.lines[row]? = some d.buffer.lines[row] := List.getElem?_eq_getElem h
  exact ⟨_, hl, by rw [offsetInRow, Buffer.lineLength, Buffer.lineText_eq hl]; rfl⟩

theorem offsetInRow_le (h : row < d.buffer.lineCount) : d.offsetInRow row ≤ d.maxOffset := by
  obtain ⟨l, hl, hoffset⟩ := exists_line h
  rw [hoffset]
  exact Buffer.rowOffset_add_le hl (Nat.min_le_right _ _)

/-- The caret stands in the row, in the column that the row allows. -/
theorem position_inRow (h : row < d.buffer.lineCount) :
    (d.inRow row).buffer.position (d.inRow row).caret =
      ⟨row, min d.caretColumn (d.buffer.lineLength row)⟩ := by
  obtain ⟨l, hl, hoffset⟩ := exists_line h
  have hposition : d.buffer.position (d.offsetInRow row) = ⟨row, min d.caretColumn l.length⟩ := by
    rw [hoffset]
    exact Buffer.position_rowOffset_add hl (Nat.min_le_right _ _)
  rw [Buffer.lineLength, Buffer.lineText_eq hl]
  exact hposition

theorem moveTo_offsetInRow (h : row < d.buffer.lineCount) :
    d.moveTo (d.offsetInRow row) true = d.inRow row := by
  show { d with selection := .point (min (d.offsetInRow row) d.maxOffset) } = d.inRow row
  rw [Nat.min_eq_left (offsetInRow_le h)]
  rfl

theorem up_inRow (h : row + 1 < d.buffer.lineCount) :
    (d.inRow (row + 1)).up true = d.inRow row := by
  have hmove : (d.inRow (row + 1)).moveTo ((d.inRow (row + 1)).offsetInRow row) true = d.inRow row :=
    moveTo_offsetInRow (d := d.inRow (row + 1)) (Nat.lt_of_succ_lt h)
  rw [up, position_inRow h]
  exact hmove

theorem down_inRow (h : row + 1 < d.buffer.lineCount) :
    (d.inRow row).down true = d.inRow (row + 1) := by
  have hmove : (d.inRow row).moveTo ((d.inRow row).offsetInRow (row + 1)) true = d.inRow (row + 1) :=
    moveTo_offsetInRow (d := d.inRow row) h
  rw [down, position_inRow (Nat.lt_of_succ_lt h)]
  exact (if_pos h).trans hmove

/-- A document whose caret stands at the remembered column is where such a way begins. -/
theorem inRow_row (hempty : d.selection.isEmpty = true) (hf : d.Fits)
    (hcolumn : d.caretColumn = (d.buffer.position d.caret).column) :
    d.inRow (d.buffer.position d.caret).row = d := by
  obtain ⟨l, hl, hle⟩ := d.buffer.exists_line_position d.caret
  have hoffset : d.offsetInRow (d.buffer.position d.caret).row = d.caret := by
    rw [offsetInRow, Buffer.lineLength, Buffer.lineText_eq hl, hcolumn]
    show _ + min _ l.length = d.caret
    rw [Nat.min_eq_left hle, d.buffer.rowOffset_position]
    exact Nat.min_eq_left hf.2
  have hselection : d.selection = .point d.caret := Selection.eq_point_of_isEmpty hempty
  rw [inRow, hoffset, ← hselection]

end Document

namespace Command

variable {d : Document} {row : Nat}

theorem runAll_up (h : row < d.buffer.lineCount) {i : Nat} (hi : i ≤ row) :
    runAll (List.replicate i (.up true)) (d.inRow row) = d.inRow (row - i) := by
  induction i with
  | zero => rfl
  | succ i ih =>
    have hrow : row - i = row - (i + 1) + 1 := by omega
    rw [runAll_replicate_succ, ih (Nat.le_of_succ_le hi), hrow]
    exact Document.up_inRow (by omega)

theorem runAll_down {i : Nat} (h : row + i < d.buffer.lineCount) :
    runAll (List.replicate i (.down true)) (d.inRow row) = d.inRow (row + i) := by
  induction i with
  | zero => rfl
  | succ i ih =>
    rw [runAll_replicate_succ, ih (by omega)]
    exact Document.down_inRow h

end Command

/-- From a caret at the remembered column, some steps up and as many down lead back to the same
document, and so do some steps down and as many up, as long as there are rows for them. On the way
each step comes to the next row, to the remembered column or to the end of a shorter row. -/
theorem up_down_returns {d₀ : Document} (h : d₀.Fresh fun _ => True) (cs : List Command) :
    let d := Command.runAll cs d₀
    let row := (d.buffer.position d.caret).row
    let ups := fun n => Command.runAll (List.replicate n (.up true))
    let downs := fun n => Command.runAll (List.replicate n (.down true))
    d.selection.isEmpty = true → d.caretColumn = (d.buffer.position d.caret).column → ∀ n,
      (n ≤ row →
        (∀ i ≤ n, (ups i d).buffer.position (ups i d).caret =
          ⟨row - i, min d.caretColumn (d.buffer.lineLength (row - i))⟩) ∧
        downs n (ups n d) = d) ∧
      (n ≤ d.buffer.lineCount - 1 - row →
        (∀ i ≤ n, (downs i d).buffer.position (downs i d).caret =
          ⟨row + i, min d.caretColumn (d.buffer.lineLength (row + i))⟩) ∧
        ups n (downs n d) = d) := by
  intro d row ups downs hempty hcolumn n
  have hf : d.Fits := (Command.standing_runAll h.standing cs).fits
  have hrow : row < d.buffer.lineCount := d.buffer.row_position_lt d.caret
  have hd : d.inRow row = d := Document.inRow_row hempty hf hcolumn
  constructor
  · intro hn
    have hup : ∀ i ≤ n, ups i d = d.inRow (row - i) := fun i hi => by
      rw [← Command.runAll_up hrow (Nat.le_trans hi hn), hd]
    refine ⟨fun i hi => ?_, ?_⟩
    · rw [hup i hi]
      exact Document.position_inRow (by omega)
    · have hback := Command.runAll_down (show row - n + n < d.buffer.lineCount by omega)
      rw [Nat.sub_add_cancel hn, hd] at hback
      rw [hup n (Nat.le_refl n)]
      exact hback
  · intro hn
    have hdown : ∀ i ≤ n, downs i d = d.inRow (row + i) := fun i hi => by
      rw [← Command.runAll_down (show row + i < d.buffer.lineCount by omega), hd]
    refine ⟨fun i hi => ?_, ?_⟩
    · rw [hdown i hi]
      exact Document.position_inRow (by omega)
    · have hback := Command.runAll_up (show row + n < d.buffer.lineCount by omega)
        (Nat.le_add_left n row)
      rw [Nat.add_sub_cancel, hd] at hback
      rw [hdown n (Nat.le_refl n)]
      exact hback

/-- The way up leads over an empty row. -/
theorem up_down_returns_empty :
    let d := Command.runAll [.toEnd true] (.ofText "abcd\n\nef".toList)
    Command.runAll [.down true, .down true] (Command.runAll [.up true, .up true] d) = d := by
  intro d
  have hreturns := up_down_returns (.ofText (s := "abcd\n\nef".toList) trivial) [.toEnd true]
    (by decide +kernel) (by decide +kernel) 2
  exact (hreturns.1 (by decide +kernel)).2

end StructEdit
