import StructEdit.Proofs.Buffer.Tracking

/-!
# Runs of rows and the number of rows

Each replacement that changes the number of rows notes by how much: as a run of inserted rows or
as a run of deleted rows. Runs move with their first row, and a run whose first row is removed is
lost, even though a run of deleted rows does not stand for the row that is at its place now.
Between two times of asking for the changes, the runs that are left and those that were lost
account for the number of rows. The runs that are left do so exactly when the inserted rows that
were lost are as many as the deleted ones.
-/
namespace StructEdit

/-- The number of rows in all runs. -/
def Run.total : List Run → Nat
  | [] => 0
  | r :: rs => r.count + Run.total rs

/-- The runs whose first row is removed. -/
def RowShift.lost (σ : RowShift) (rs : List Run) : List Run :=
  rs.filter fun r => (σ.row? r.first).isNone

theorem Run.total_concat (rs : List Run) (r : Run) :
    Run.total (rs ++ [r]) = Run.total rs + r.count := by
  induction rs with
  | nil => simp [Run.total]
  | cons s rs ih =>
    rw [List.cons_append, Run.total, Run.total, ih, Nat.add_assoc]

/-- A shift keeps a run with its number of rows, or loses it. -/
theorem Run.total_shift (σ : RowShift) (rs : List Run) :
    Run.total (rs.filterMap (Run.shift? σ)) + Run.total (σ.lost rs) = Run.total rs := by
  induction rs with
  | nil => rfl
  | cons r rs ih =>
    unfold RowShift.lost at ih ⊢
    cases hrow : σ.row? r.first with
    | none =>
      have hshift : Run.shift? σ r = none := by rw [Run.shift?, hrow, Option.map_none]
      rw [List.filterMap_cons_none hshift, List.filter_cons_of_pos (by simp [hrow])]
      simp only [Run.total]
      omega
    | some first =>
      have hshift : Run.shift? σ r = some { r with first } := by
        rw [Run.shift?, hrow, Option.map_some]
      rw [List.filterMap_cons_some hshift, List.filter_cons_of_neg (by simp [hrow])]
      simp only [Run.total]
      omega

namespace Changes

@[simp] theorem inserted_mark (c : Changes) (rows : List Nat) :
    (c.mark rows).inserted = c.inserted := rfl

@[simp] theorem deleted_mark (c : Changes) (rows : List Nat) :
    (c.mark rows).deleted = c.deleted := rfl

@[simp] theorem deleted_insertRun (c : Changes) (first count : Nat) :
    (c.insertRun first count).deleted = c.deleted := by
  unfold insertRun
  split <;> rfl

@[simp] theorem inserted_deleteRun (c : Changes) (first count : Nat) :
    (c.deleteRun first count).inserted = c.inserted := by
  unfold deleteRun
  split <;> rfl

@[simp] theorem total_insertRun (c : Changes) (first count : Nat) :
    Run.total (c.insertRun first count).inserted = Run.total c.inserted + count := by
  unfold insertRun
  split
  · omega
  · exact Run.total_concat ..

@[simp] theorem total_deleteRun (c : Changes) (first count : Nat) :
    Run.total (c.deleteRun first count).deleted = Run.total c.deleted + count := by
  unfold deleteRun
  split
  · omega
  · exact Run.total_concat ..

end Changes

namespace Buffer

theorem total_inserted_replace (b : Buffer) (i j : Nat) (s : Text) :
    Run.total (b.replace i j s).changes.inserted +
        Run.total ((b.resizing i j s).lost b.changes.inserted) =
      Run.total b.changes.inserted + (b.resizing i j s).added := by
  have hshift := Run.total_shift (b.resizing i j s) b.changes.inserted
  simp only [changes_replace, Changes.inserted_mark, Changes.total_insertRun,
    Changes.inserted_deleteRun, Changes.shift]
  omega

theorem total_deleted_replace (b : Buffer) (i j : Nat) (s : Text) :
    Run.total (b.replace i j s).changes.deleted +
        Run.total ((b.resizing i j s).lost b.changes.deleted) =
      Run.total b.changes.deleted + (b.resizing i j s).removed := by
  have hshift := Run.total_shift (b.resizing i j s) b.changes.deleted
  simp only [changes_replace, Changes.deleted_mark, Changes.deleted_insertRun,
    Changes.total_deleteRun, Changes.shift]
  omega

end Buffer

/-! ## Runs of operations -/

namespace BufferOp

/-- The rows in the runs that an operation loses. -/
def lostAt (runs : Changes → List Run) (d : Document) (op : BufferOp) : Nat :=
  op.edit?.elim 0 fun (i, j, s) =>
    Run.total ((d.buffer.resizing i j s).lost (runs d.buffer.changes))

/-- The rows in the runs that operations lose on their way. -/
def lost (runs : Changes → List Run) (d : Document) : List BufferOp → Nat
  | [] => 0
  | op :: ops => lostAt runs d op + lost runs (apply d op) ops

theorem total_apply {op : BufferOp} (hop : op ≠ .takeChanges) (d : Document) :
    d.buffer.lineCount + Run.total (apply d op).buffer.changes.inserted +
        Run.total d.buffer.changes.deleted + lostAt Changes.inserted d op =
      (apply d op).buffer.lineCount + Run.total (apply d op).buffer.changes.deleted +
        Run.total d.buffer.changes.inserted + lostAt Changes.deleted d op := by
  rcases buffer_apply_cases hop d with ⟨i, j, s, hedit, heq⟩ | ⟨hedit, ⟨row, heq⟩ | heq⟩
  · have hcount := d.buffer.lineCount_replace i j s
    have hinserted := d.buffer.total_inserted_replace i j s
    have hdeleted := d.buffer.total_deleted_replace i j s
    rw [heq]
    simp only [lostAt, hedit, Option.elim_some]
    omega
  · rw [heq, Buffer.changes_markDirty, Buffer.lineCount_markDirty]
    simp only [lostAt, hedit, Option.elim_none]
    omega
  · rw [heq, Buffer.lineCount_flush]
    simp only [lostAt, hedit, Option.elim_none, Buffer.flush, Changes.inserted_mark,
      Changes.deleted_mark]
    omega

theorem total_runAll (d : Document) {ops : List BufferOp} (hops : .takeChanges ∉ ops) :
    d.buffer.lineCount + Run.total (runAll ops d).buffer.changes.inserted +
        Run.total d.buffer.changes.deleted + lost Changes.inserted d ops =
      (runAll ops d).buffer.lineCount + Run.total (runAll ops d).buffer.changes.deleted +
        Run.total d.buffer.changes.inserted + lost Changes.deleted d ops := by
  induction ops generalizing d with
  | nil =>
    simp only [runAll, List.foldl_nil, lost]
    omega
  | cons op ops ih =>
    obtain ⟨hop, hops⟩ := not_or.1 (fun h => hops (List.mem_cons.2 h))
    have hfirst := total_apply (Ne.symm hop) d
    have hrest := ih (apply d op) hops
    simp only [runAll, List.foldl_cons, lost] at hrest ⊢
    omega

end BufferOp

/-- From the time when the changes of a buffer are asked for, the runs that are noted and those that
were lost on the way account for the number of rows. -/
theorem runs_since_takeChanges (d : Document) {ops : List BufferOp} (hops : .takeChanges ∉ ops) :
    let d₀ := BufferOp.apply d .takeChanges
    let b := (BufferOp.runAll ops d₀).buffer
    d₀.buffer.lineCount + Run.total b.changes.inserted +
        BufferOp.lost Changes.inserted d₀ ops =
      b.lineCount + Run.total b.changes.deleted + BufferOp.lost Changes.deleted d₀ ops := by
  intro d₀ b
  have htotal := BufferOp.total_runAll d₀ hops
  have hnone : d₀.buffer.changes = .none := rfl
  simpa [hnone, Changes.none, Run.total] using htotal

/-- Two rows come in, and the first of them goes again. The run of both is lost. -/
theorem runs_since_takeChanges_insert :
    let d₀ := BufferOp.apply (.ofText ['a']) .takeChanges
    let ops := [BufferOp.insertAt 1 ['\n', 'b', '\n', 'c'] none none, .deleteAt 1 2 none none]
    let b := (BufferOp.runAll ops d₀).buffer
    .takeChanges ∉ ops ∧
      d₀.buffer.lineCount + Run.total b.changes.inserted + BufferOp.lost Changes.inserted d₀ ops =
        b.lineCount + Run.total b.changes.deleted + BufferOp.lost Changes.deleted d₀ ops ∧
      b.changes.inserted = [] ∧ b.changes.deleted = [⟨1, 1⟩] ∧
      BufferOp.lost Changes.inserted d₀ ops = 2 ∧ BufferOp.lost Changes.deleted d₀ ops = 0 :=
  ⟨by decide, runs_since_takeChanges _ (by decide), by decide +kernel, by decide +kernel,
    by decide +kernel, by decide +kernel⟩

/-- Two rows are deleted one after the other, and only the second deletion is left. -/
theorem lineCount_ne_of_deletes :
    let d₀ := BufferOp.apply (.ofText ['a', '\n', 'b', '\n', 'c']) .takeChanges
    let b := (BufferOp.runAll [.deleteAt 1 2 none none, .deleteAt 1 2 none none] d₀).buffer
    d₀.buffer.lineCount = 3 ∧ b.lineCount = 1 ∧ b.changes.inserted = [] ∧
      b.changes.deleted = [⟨1, 1⟩] ∧
      d₀.buffer.lineCount + Run.total b.changes.inserted ≠
        b.lineCount + Run.total b.changes.deleted := by
  decide +kernel

end StructEdit
