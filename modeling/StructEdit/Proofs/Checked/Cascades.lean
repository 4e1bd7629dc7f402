import StructEdit.Proofs.Buffer.Tracking
import StructEdit.Proofs.Checked.Flush

/-!
# The runs of a flush

A flush starts a run at each marked row that no run came by yet. The run goes down until the mode
fits again, so it may pass over marked rows, stop right above one, or end where the next one starts,
and each run changes the modes that decide about those below.

Still the runs follow each other down the buffer and do not meet, in whatever order the rows were
marked: a flush scans a row at most once.
-/
namespace StructEdit

theorem Run.mem_rows {r : Run} {row : Nat} :
    row ∈ r.rows ↔ r.first ≤ row ∧ row < r.first + r.count :=
  List.mem_range'_1

/-- A row that is marked is scanned. -/
theorem mem_rescan_of_mem {dirty : List Nat} {row : Nat} {above : Mode} {fresh : Bool}
    {ls : List Line} {r : Nat} (h : r ∈ dirty) (hle : row ≤ r) (hlt : r < row + ls.length) :
    r ∈ (rescan dirty row above fresh ls).2 := by
  induction ls generalizing row above fresh with
  | nil =>
    rw [List.length_nil] at hlt
    omega
  | cons l ls ih =>
    rw [List.length_cons] at hlt
    rcases Nat.eq_or_lt_of_le hle with rfl | hbelow
    · rw [rescan, if_pos (Or.inl h)]
      exact List.mem_cons_self
    · simp only [rescan]
      split
      · exact List.mem_cons_of_mem row (ih hbelow (by omega))
      · exact ih hbelow (by omega)

namespace Checked

/-! ## Runs that ascend -/

namespace Ascends

theorem bounds {row : Nat} {runs : List Run} (h : Ascends row runs) :
    ∀ r ∈ runs, row ≤ r.first ∧ 0 < r.count := by
  induction runs generalizing row with
  | nil => simp
  | cons r runs ih =>
    obtain ⟨hfirst, hcount, hrest⟩ := h
    intro s hs
    rcases List.mem_cons.1 hs with rfl | hs
    · exact ⟨hfirst, hcount⟩
    · exact ih (hrest.mono (by omega)) s hs

/-- Each run ends above all later ones. -/
theorem pairwise {row : Nat} {runs : List Run} (h : Ascends row runs) :
    runs.Pairwise fun r s => r.first + r.count ≤ s.first := by
  induction runs generalizing row with
  | nil => exact List.Pairwise.nil
  | cons r runs ih =>
    obtain ⟨_, _, hrest⟩ := h
    exact List.pairwise_cons.2 ⟨fun s hs => (hrest.bounds s hs).1, ih hrest⟩

/-- The rows of the runs, one run after the other, ascend from row to row. -/
theorem pairwise_rows {row : Nat} {runs : List Run} (h : Ascends row runs) :
    (runs.flatMap Run.rows).Pairwise (· < ·) := by
  refine List.pairwise_flatMap.2 ⟨fun r _ => List.pairwise_lt_range', ?_⟩
  refine h.pairwise.imp fun hle x hx y hy => ?_
  have hx := Run.mem_rows.1 hx
  have hy := Run.mem_rows.1 hy
  omega

end Ascends

/-! ## What a flush does with the rows -/

/-- The runs that lead from a buffer to the pass at the end of its flush. -/
structure Cascades (b : Buffer) (p : Pass) (runs : List Run) : Prop where
  /-- A run starts at a marked row and stays within the buffer. -/
  starts : ∀ r ∈ runs, r.first ∈ b.dirty ∧ 0 < r.count ∧ r.first + r.count ≤ b.lineCount
  /-- A run ends above the runs that come after it. -/
  ascending : runs.Pairwise fun r s => r.first + r.count ≤ s.first
  /-- The rows that were scanned, one after the other, are those of the runs. -/
  scanned : p.seen.reverse = runs.flatMap Run.rows
  once : p.seen.Nodup
  marked : ∀ row ∈ b.dirty, row < b.lineCount → row ∈ p.seen
  changed : ∀ row, row ∈ p.changed ↔ row ∈ p.seen ∨ row ∈ b.changes.changed
  kept : ∀ row, row ∉ p.seen → p.lines[row]? = b.lines[row]?

/-- A flush scans each row at most once. It works off the marked rows in runs that follow each
other down the buffer without meeting; they come by every marked row, all their rows are noted as
changed, the other rows stay as they are, and no mark is left. -/
theorem flush_cascades (b : Buffer) :
    ∃ p runs,
      workOff ⟨b.lines, [], b.changes.changed⟩ (b.dirty.mergeSort (fun r s => r ≤ s)) =
        some (p, runs) ∧
      Cascades b p runs ∧
      b.flush.lines = p.lines ∧
      b.flush.changes = { b.changes with changed := p.changed } ∧
      b.flush.dirty = [] := by
  obtain ⟨runs, hwork, hrows, hascends, hfirst⟩ := exists_runs_flush b
  have hseen (row : Nat) : row ∈ (runs.flatMap Run.rows).reverse ↔
      row ∈ (rescan b.dirty 0 .code false b.lines).2 := by
    rw [hrows, List.mem_reverse]
  refine ⟨_, runs, hwork, ?_, rfl, rfl, rfl⟩
  constructor
  · intro r hr
    have hcount := (hascends.bounds r hr).2
    have hlast : r.first + r.count - 1 ∈ runs.flatMap Run.rows :=
      List.mem_flatMap.2 ⟨r, hr, Run.mem_rows.2 ⟨by omega, by omega⟩⟩
    have hlt := (mem_rescan_bounds (hrows ▸ hlast)).2
    rw [← Buffer.lineCount] at hlt
    exact ⟨hfirst r hr, hcount, by omega⟩
  · exact hascends.pairwise
  · exact List.reverse_reverse _
  · exact List.pairwise_reverse.2 (hascends.pairwise_rows.imp Nat.ne_of_gt)
  · intro row hmark hrow
    exact (hseen row).2 (mem_rescan_of_mem hmark (Nat.zero_le row) (by rwa [Nat.zero_add]))
  · intro row
    rw [hseen]
    exact Changes.mem_changed_mark
  · intro row hrow
    rw [hseen] at hrow
    exact getElem?_rescan (by rwa [Nat.zero_add])

end Checked
end StructEdit
