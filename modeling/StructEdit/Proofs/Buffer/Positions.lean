import StructEdit.Proofs.Buffer.Offsets

/-!
# Positions and offsets as one another's inverse

An offset of the buffer and a row with a column in it say the same. The way from the offset is a
walk down the rows, and the way back adds the room that the rows above take, each with its break.
That a position finds its offset again is `rowOffset_position`. That an offset finds its position
again needs that the column is not behind the end of its row, where the break stands.

What is cut out between two offsets is cut out of the text, where an offset past the end counts as
the end.
-/
namespace StructEdit.Buffer

variable {b : Buffer}

/-- The position of the offset of a column in a row. -/
theorem position_rowOffset_add {row column : Nat} {l : Line} (hl : b.lines[row]? = some l)
    (hcolumn : column ≤ l.length) : b.position (b.rowOffset row + column) = ⟨row, column⟩ := by
  have hrow : (b.lines.take row).length = row := by
    have hlt : row < b.lines.length := (List.getElem?_eq_some_iff.1 hl).1
    rw [List.length_take, Nat.min_eq_left (Nat.le_of_lt hlt)]
  have hcut := lines_eq_cut hl
  have hlocate : locate (b.lines.take row ++ l :: b.lines.drop (row + 1))
      (extent (b.lines.take row) + column) = ⟨row, column⟩ := by
    rw [locate_append (Nat.le_add_right _ _) (Or.inl (Nat.add_le_add_left hcolumn _)), hrow,
      Nat.add_sub_cancel_left, Nat.min_eq_left hcolumn]
  rwa [← hcut] at hlocate

/-- The offset of a column in a row lies in the buffer. -/
theorem rowOffset_add_le {row column : Nat} {l : Line} (hl : b.lines[row]? = some l)
    (hcolumn : column ≤ l.length) : b.rowOffset row + column ≤ b.maxOffset := by
  have h := b.rowOffset_position (b.rowOffset row + column)
  rw [position_rowOffset_add hl hcolumn] at h
  exact h ▸ Nat.min_le_right _ _

/-- An offset past the end has the position of the end. -/
theorem position_min (b : Buffer) (n : Nat) : b.position (min n b.maxOffset) = b.position n := by
  obtain ⟨l, hl, hcolumn⟩ := b.exists_line_position n
  rw [← b.rowOffset_position n, position_rowOffset_add hl hcolumn]

/-- What lies between two offsets, cut out of the text, with the offsets drawn back into the
buffer. -/
theorem slice_eq_min (b : Buffer) (i j : Nat) :
    b.slice i j =
      (b.text.take (min (max i j) b.maxOffset)).drop (min (min i j) b.maxOffset) := by
  rw [slice, ← b.position_min (min i j), ← b.position_min (max i j)]
  have hle : min (min i j) b.maxOffset ≤ min (max i j) b.maxOffset := by omega
  have h := b.take_append_textBetween hle
  have hlen : (b.text.take (min (min i j) b.maxOffset)).length = min (min i j) b.maxOffset := by
    rw [List.length_take, b.length_text]
    omega
  rw [← h, List.drop_left' hlen]

/-- Offsets, positions and pieces of the text agree. The largest offset is the length of the text.
An offset up to it has a position in the rows, from which it is found again, and a column of a row
has an offset, from which it is found again. The text between two offsets, in either order, is cut
out of the whole text with both drawn back to the largest one. The other form of it gives this text
when both lie in the buffer, and otherwise none. -/
theorem positions_agree (b : Buffer) :
    b.maxOffset = b.text.length ∧
    (∀ offset ≤ b.maxOffset, ∃ l, b.lines[(b.position offset).row]? = some l ∧
      (b.position offset).column ≤ l.length ∧
      b.rowOffset (b.position offset).row + (b.position offset).column = offset) ∧
    (∀ row l, b.lines[row]? = some l → ∀ column ≤ l.length,
      b.rowOffset row + column ≤ b.maxOffset ∧
        b.position (b.rowOffset row + column) = ⟨row, column⟩) ∧
    (∀ i j, b.slice i j =
      (b.text.take (min (max i j) b.maxOffset)).drop (min (min i j) b.maxOffset)) ∧
    (∀ i j, b.sliceWithin i j =
      if max i j ≤ b.maxOffset then (b.text.take (max i j)).drop (min i j) else []) ∧
    b.slice 0 b.maxOffset = b.text := by
  have hback : ∀ offset ≤ b.maxOffset, ∃ l, b.lines[(b.position offset).row]? = some l ∧
      (b.position offset).column ≤ l.length ∧
      b.rowOffset (b.position offset).row + (b.position offset).column = offset := by
    intro offset hle
    obtain ⟨l, hl, hcolumn⟩ := b.exists_line_position offset
    exact ⟨l, hl, hcolumn, (b.rowOffset_position offset).trans (Nat.min_eq_left hle)⟩
  have hwithin : ∀ i j, b.sliceWithin i j =
      if max i j ≤ b.maxOffset then (b.text.take (max i j)).drop (min i j) else [] := by
    intro i j
    rw [sliceWithin]
    split
    · rename_i hout
      rw [if_neg (Nat.not_le.2 hout)]
    · rename_i hin
      rw [if_pos (Nat.not_lt.1 hin), slice_eq]
  exact ⟨b.length_text.symm, hback,
    fun _ _ hl _ hcolumn => ⟨rowOffset_add_le hl hcolumn, position_rowOffset_add hl hcolumn⟩,
    b.slice_eq_min, hwithin, b.slice_maxOffset⟩

end StructEdit.Buffer
