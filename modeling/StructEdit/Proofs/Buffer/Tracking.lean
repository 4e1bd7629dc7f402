import Mathlib.Data.Nat.Basic
import Mathlib.Order.Monotone.Defs
import StructEdit.Proofs.Buffer.Settled

/-!
# What is noted about rows

A buffer notes which rows have changed since somebody last asked, and which wait to be scanned.
When a replacement changes the number of rows, the rows noted so far move: `resizing` is the one
shift they all follow. It starts below the first row that was touched and knows only by how much
the number of rows grew or shrank, so it keeps notes on rows that have been replaced. That does no
harm: such notes come to lie on the rows that the replacement scanned, which are noted anyway.

A row that is not noted as changed is untouched: it is a row of the buffer from when somebody
last asked, and untouched rows stand in the order they had then. `Carries` says where they come
from.
-/
namespace StructEdit
open Text

/-! ## Shifts -/

namespace RowShift

/-- Rows inside a buffer move to rows inside the buffer of the new size. -/
theorem row?_lt {σ : RowShift} {row row' count count' : Nat} (h : σ.row? row = some row')
    (hrow : row < count) (hstart : σ.start ≤ count')
    (hcount : count' + σ.removed = count + σ.added) : row' < count' := by
  unfold row? at h
  split at h
  · obtain rfl := Option.some.inj h
    omega
  · split at h
    · simp at h
    · obtain rfl := Option.some.inj h
      omega

end RowShift

theorem mem_insertRow {row r : Nat} {rs : List Nat} : r ∈ insertRow row rs ↔ r = row ∨ r ∈ rs := by
  fun_induction insertRow row rs with
  | case1 => simp
  | case2 => simp
  | case3 rs => simp
  | case4 s rs _ _ ih =>
    rw [List.mem_cons, ih, List.mem_cons]
    exact or_left_comm

namespace Changes

theorem mem_changed_mark {c : Changes} {rows : List Nat} {r : Nat} :
    r ∈ (c.mark rows).changed ↔ r ∈ rows ∨ r ∈ c.changed := by
  simp only [mark]
  generalize c.changed = changed
  induction rows generalizing changed with
  | nil => simp
  | cons row rows ih =>
    rw [List.foldl_cons, ih, mem_insertRow, List.mem_cons, or_left_comm, or_assoc]

@[simp] theorem changed_insertRun (c : Changes) (first count : Nat) :
    (c.insertRun first count).changed = c.changed := by
  unfold insertRun
  split <;> rfl

@[simp] theorem changed_deleteRun (c : Changes) (first count : Nat) :
    (c.deleteRun first count).changed = c.changed := by
  unfold deleteRun
  split <;> rfl

end Changes

/-! ## What is noted after a replacement -/

namespace Buffer

/-- How the rows below the first one move when a text comes in the place of the characters between
two offsets. -/
def resizing (b : Buffer) (i j : Nat) (s : Text) : RowShift :=
  let removed := (b.position (max i j)).row - (b.position (min i j)).row
  let added := (splitLines (normalizeBreaks s)).length - 1
  ⟨(b.position (min i j)).row + 1, removed - added, added - removed⟩

@[simp] theorem changes_markDirty (b : Buffer) (row : Nat) :
    (b.markDirty row).changes = b.changes := by
  unfold markDirty
  split <;> rfl

/-- The buffer right before the replacement marks rows. -/
def unmarked (b : Buffer) (i j : Nat) (s : Text) : Buffer :=
  b.splice (b.position (min i j)) (b.position (max i j)) (splitLines (normalizeBreaks s))

theorem replace_of_unmarked {P : Buffer → Prop} {b : Buffer} {i j : Nat} {s : Text}
    (h : P (b.unmarked i j s)) (hmark : ∀ (c : Buffer) (row : Nat), P c → P (c.markDirty row)) :
    P (b.replace i j s) := by
  simp only [replace]
  split
  · exact hmark _ _ h
  · exact hmark _ _ (hmark _ _ (hmark _ _ h))

theorem lines_unmarked (b : Buffer) (i j : Nat) (s : Text) :
    (b.unmarked i j s).lines = (b.replace i j s).lines :=
  (b.lines_replace i j s).symm

theorem changes_unmarked (b : Buffer) (i j : Nat) (s : Text) :
    (b.unmarked i j s).changes = (b.replace i j s).changes :=
  replace_of_unmarked (P := fun c => (b.unmarked i j s).changes = c.changes) rfl
    fun c row h => by rw [h, changes_markDirty]

theorem changes_replace (b : Buffer) (i j : Nat) (s : Text) :
    (b.replace i j s).changes =
      (((b.changes.shift (b.resizing i j s)).deleteRun (b.resizing i j s).start
        (b.resizing i j s).removed).insertRun (b.resizing i j s).start
        (b.resizing i j s).added).mark
        (List.range' (b.position (min i j)).row (b.freshLines i j s).length) := by
  rw [length_freshLines, ← changes_unmarked]
  simp only [unmarked, splice, resizeRows_eq]
  rfl

theorem mem_changed_replace {b : Buffer} {i j : Nat} {s : Text} {r : Nat} :
    r ∈ (b.replace i j s).changes.changed ↔
      ((b.position (min i j)).row ≤ r ∧
        r < (b.position (min i j)).row + (b.freshLines i j s).length) ∨
      ∃ r' ∈ b.changes.changed, (b.resizing i j s).row? r' = some r := by
  rw [changes_replace, Changes.mem_changed_mark, List.mem_range'_1, Changes.changed_insertRun,
    Changes.changed_deleteRun, Changes.shift, List.mem_filterMap]

theorem lineCount_replace (b : Buffer) (i j : Nat) (s : Text) :
    (b.replace i j s).lineCount + (b.resizing i j s).removed =
      b.lineCount + (b.resizing i j s).added := by
  have hle := b.row_position_le i j
  have hlt : (b.position (max i j)).row < b.lines.length := b.row_position_lt _
  have hpos := b.length_freshLines_pos i j s
  simp only [lineCount, resizing, lines_replace, List.length_append, List.length_take,
    List.length_drop, ← length_freshLines b i j]
  omega

theorem dirty_unmarked (b : Buffer) (i j : Nat) (s : Text) :
    (b.unmarked i j s).dirty = b.dirty.filterMap (b.resizing i j s).row? := by
  simp only [unmarked, splice, resizeRows_eq]
  rfl

end Buffer

/-! ## What is noted after a flush -/

theorem mem_rescan_bounds {dirty : List Nat} {row : Nat} {above : Mode} {fresh : Bool}
    {ls : List Line} {r : Nat} (h : r ∈ (rescan dirty row above fresh ls).2) :
    row ≤ r ∧ r < row + ls.length := by
  induction ls generalizing row above fresh with
  | nil => simp [rescan] at h
  | cons l ls ih =>
    simp only [rescan] at h
    rw [List.length_cons]
    split at h
    · rcases List.mem_cons.1 h with rfl | h
      · omega
      · have := ih h
        omega
    · have := ih h
      omega

/-- A row that is not scanned again stays as it is. -/
theorem getElem?_rescan {dirty : List Nat} {row : Nat} {above : Mode} {fresh : Bool}
    {ls : List Line} {i : Nat} (h : row + i ∉ (rescan dirty row above fresh ls).2) :
    (rescan dirty row above fresh ls).1[i]? = ls[i]? := by
  induction ls generalizing row above fresh i with
  | nil => rfl
  | cons l ls ih =>
    simp only [rescan] at h ⊢
    split at h
    · rename_i hscan
      rw [if_pos hscan]
      rw [List.mem_cons, not_or] at h
      cases i with
      | zero => exact absurd rfl h.1
      | succ i =>
        rw [← Nat.add_assoc, Nat.add_right_comm] at h
        simpa using ih h.2
    · rename_i hkeep
      rw [if_neg hkeep]
      cases i with
      | zero => rfl
      | succ i =>
        rw [← Nat.add_assoc, Nat.add_right_comm] at h
        simpa using ih h

namespace Buffer

@[simp] theorem lineCount_flush (b : Buffer) : b.flush.lineCount = b.lineCount :=
  length_rescan ..

@[simp] theorem lineCount_markDirty (b : Buffer) (row : Nat) :
    (b.markDirty row).lineCount = b.lineCount := by
  rw [lineCount, lines_markDirty, lineCount]

/-! ## Rows that are noted exist -/

structure Noted (b : Buffer) : Prop where
  changed : ∀ r ∈ b.changes.changed, r < b.lineCount
  dirty : ∀ r ∈ b.dirty, r < b.lineCount

namespace Noted

variable {b : Buffer}

theorem empty : Buffer.empty.Noted := ⟨by simp [Buffer.empty, Changes.none], by simp [Buffer.empty]⟩

theorem markDirty (h : b.Noted) (row : Nat) : (b.markDirty row).Noted := by
  refine ⟨by simpa using h.changed, ?_⟩
  rw [lineCount_markDirty]
  unfold Buffer.markDirty
  split
  · rename_i hrow
    intro r hr
    rcases List.mem_append.1 hr with hr | hr
    · exact h.dirty r hr
    · obtain rfl := List.mem_singleton.1 hr
      exact hrow.1
  · exact h.dirty

theorem takeChanges (h : b.Noted) : b.takeChanges.2.Noted :=
  ⟨by simp [Buffer.takeChanges, Changes.none], h.dirty⟩

theorem flush (h : b.Noted) : b.flush.Noted := by
  refine ⟨fun r hr => ?_, by simp⟩
  rw [lineCount_flush]
  rcases Changes.mem_changed_mark.1 hr with hr | hr
  · have hlt := (mem_rescan_bounds hr).2
    rwa [Nat.zero_add] at hlt
  · exact h.changed r hr

theorem unmarked (h : b.Noted) (i j : Nat) (s : Text) : (b.unmarked i j s).Noted := by
  have hcount := b.lineCount_replace i j s
  have hpos := b.length_freshLines_pos i j s
  have hrows : (b.position (min i j)).row + (b.freshLines i j s).length ≤
      (b.replace i j s).lineCount := b.row_add_freshLines_le i j s
  have hstart : (b.resizing i j s).start ≤ (b.replace i j s).lineCount := by
    simp only [resizing]
    omega
  constructor
  · intro r hr
    rw [changes_unmarked, mem_changed_replace] at hr
    rw [lineCount, lines_unmarked]
    rcases hr with ⟨-, hlt⟩ | ⟨r', hr', hrow⟩
    · exact Nat.lt_of_lt_of_le hlt hrows
    · exact RowShift.row?_lt hrow (h.changed r' hr') hstart hcount
  · intro r hr
    rw [dirty_unmarked] at hr
    rw [lineCount, lines_unmarked]
    obtain ⟨r', hr', hrow⟩ := List.mem_filterMap.1 hr
    exact RowShift.row?_lt hrow (h.dirty r' hr') hstart hcount

theorem replace (h : b.Noted) (i j : Nat) (s : Text) : (b.replace i j s).Noted :=
  replace_of_unmarked (h.unmarked i j s) fun _ row hc => hc.markDirty row

end Noted

/-! ## Where untouched rows come from -/

/-- A row that is not noted as changed. -/
def Untouched (b : Buffer) (row : Nat) : Prop := row < b.lineCount ∧ row ∉ b.changes.changed

/-- The row stands in front of the rows that a replacement scanned, or behind them. -/
def Kept (b : Buffer) (i j : Nat) (s : Text) (row : Nat) : Prop :=
  row < (b.position (min i j)).row ∨
    (b.position (min i j)).row + (b.freshLines i j s).length ≤ row

/-- Where a kept row stood before the replacement. -/
def origin (b : Buffer) (i j : Nat) (s : Text) (row : Nat) : Nat :=
  if row < (b.position (min i j)).row then row
  else row - ((b.position (min i j)).row + (b.freshLines i j s).length) +
    ((b.position (max i j)).row + 1)

theorem getElem?_origin (b : Buffer) {i j : Nat} {s : Text} {row : Nat} (h : b.Kept i j s row) :
    (b.replace i j s).lines[row]? = b.lines[b.origin i j s row]? := by
  rw [getElem?_lines_replace, origin]
  split
  · rfl
  · rename_i hge
    rw [if_neg (Nat.not_lt.2 (h.resolve_left hge))]

theorem origin_lt {b : Buffer} {i j : Nat} {s : Text} {row row' : Nat} (h : b.Kept i j s row)
    (h' : b.Kept i j s row') (hlt : row < row') : b.origin i j s row < b.origin i j s row' := by
  have hle := b.row_position_le i j
  unfold Kept at h h'
  unfold origin
  split <;> split <;> omega

/-- What is noted about a row goes where the row goes, if the row is kept. -/
theorem row?_origin (b : Buffer) {i j : Nat} {s : Text} {row : Nat} (h : b.Kept i j s row) :
    (b.resizing i j s).row? (b.origin i j s row) = some row := by
  have hle := b.row_position_le i j
  have hpos := b.length_freshLines_pos i j s
  unfold Kept at h
  unfold origin resizing
  rw [← length_freshLines b i j]
  split
  · exact RowShift.row?_of_lt (by simp only; omega)
  · rw [RowShift.row?_of_le (by simp only; omega)]
    simp only [Option.some.injEq]
    omega

/-- The untouched rows of the second buffer come from untouched rows of the first, in the same
order. -/
structure Carries (b b' : Buffer) (f : Nat → Nat) : Prop where
  strict : StrictMonoOn f {row | b'.Untouched row}
  untouched : ∀ row, b'.Untouched row → b.Untouched (f row)
  line : ∀ row, b'.Untouched row → b'.lines[row]? = b.lines[f row]?

namespace Carries

variable {b b' b'' : Buffer} {f g : Nat → Nat}

/-- Where every row that is still untouched was untouched before and has kept its line. -/
theorem of_id (hlast : ∀ row, b'.Untouched row → b.Untouched row ∧ b'.lines[row]? = b.lines[row]?) :
    Carries b b' id :=
  ⟨strictMonoOn_id, fun row h => (hlast row h).1, fun row h => (hlast row h).2⟩

theorem refl (b : Buffer) : Carries b b id := of_id fun _ h => ⟨h, rfl⟩

theorem trans (h : Carries b b' f) (h' : Carries b' b'' g) : Carries b b'' (f ∘ g) where
  strict := h.strict.comp h'.strict h'.untouched
  untouched row hrow := h.untouched _ (h'.untouched row hrow)
  line row hrow := (h'.line row hrow).trans (h.line _ (h'.untouched row hrow))

theorem markDirty (b : Buffer) (row : Nat) : Carries b (b.markDirty row) id :=
  of_id fun r h => ⟨by simpa [Untouched] using h, by rw [lines_markDirty]⟩

theorem flush (b : Buffer) : Carries b b.flush id := by
  refine of_id fun row h => ?_
  obtain ⟨hlt, hnot⟩ := h
  rw [lineCount_flush] at hlt
  have hmark := fun hor => hnot (Changes.mem_changed_mark.2 hor)
  refine ⟨⟨hlt, fun hr => hmark (Or.inr hr)⟩, getElem?_rescan fun hr => hmark (Or.inl ?_)⟩
  rwa [Nat.zero_add] at hr

theorem replace (b : Buffer) (i j : Nat) (s : Text) :
    Carries b (b.replace i j s) (b.origin i j s) := by
  have hkept : ∀ row, (b.replace i j s).Untouched row → b.Kept i j s row := by
    intro row h
    have hscanned : ¬((b.position (min i j)).row ≤ row ∧
        row < (b.position (min i j)).row + (b.freshLines i j s).length) :=
      fun hr => h.2 (mem_changed_replace.2 (Or.inl hr))
    unfold Kept
    omega
  have hline := fun row h => b.getElem?_origin (hkept row h)
  refine ⟨fun row h row' h' hlt => origin_lt (hkept row h) (hkept row' h') hlt, ?_, hline⟩
  intro row h
  constructor
  · refine Nat.lt_of_not_le fun hle => ?_
    have hnone := hline row h
    rw [List.getElem?_eq_none hle, List.getElem?_eq_none_iff] at hnone
    exact Nat.not_le.2 h.1 hnone
  · exact fun hr => h.2 (mem_changed_replace.2 (Or.inr ⟨_, hr, b.row?_origin (hkept row h)⟩))

end Carries

end Buffer

/-! ## Runs -/

namespace BufferOp

/-- The two offsets and the text, where the operation is a replacement. -/
def edit? : BufferOp → Option (Nat × Nat × Text)
  | .change i j text _ _ => some (i, j, text)
  | .insertAt offset text _ _ => some (offset, offset, normalizeBreaks text)
  | .deleteAt offset count _ _ => some (offset, offset + count, [])
  | .markDirty _ | .takeChanges | .flush => none

/-- What an operation other than asking for the changes does to the buffer. -/
theorem buffer_apply_cases {op : BufferOp} (hop : op ≠ .takeChanges) (d : Document) :
    (∃ i j s, op.edit? = some (i, j, s) ∧ (apply d op).buffer = d.buffer.replace i j s) ∨
    op.edit? = none ∧ ((∃ row, (apply d op).buffer = d.buffer.markDirty row) ∨
      (apply d op).buffer = d.buffer.flush) := by
  cases op with
  | change i j s before after => exact Or.inl ⟨i, j, s, rfl, by simp [apply]⟩
  | insertAt offset s before after =>
    exact Or.inl ⟨offset, offset, normalizeBreaks s, rfl, by simp [apply, Document.insertAt]⟩
  | deleteAt offset count before after =>
    exact Or.inl ⟨offset, offset + count, [], rfl, by simp [apply, Document.deleteAt]⟩
  | markDirty row => exact Or.inr ⟨rfl, Or.inl ⟨row, rfl⟩⟩
  | takeChanges => exact absurd rfl hop
  | flush => exact Or.inr ⟨rfl, Or.inr rfl⟩

theorem noted_apply {d : Document} (h : d.buffer.Noted) (op : BufferOp) :
    (apply d op).buffer.Noted := by
  by_cases hop : op = .takeChanges
  · subst hop
    exact h.takeChanges
  · rcases buffer_apply_cases hop d with ⟨i, j, s, -, heq⟩ | ⟨-, ⟨row, heq⟩ | heq⟩ <;> rw [heq]
    · exact h.replace i j s
    · exact h.markDirty row
    · exact h.flush

theorem noted_runAll {d : Document} (h : d.buffer.Noted) (ops : List BufferOp) :
    (runAll ops d).buffer.Noted :=
  runAll_of_apply (P := fun d => d.buffer.Noted) (fun _ op h => noted_apply h op) h ops

theorem carries_apply {op : BufferOp} (hop : op ≠ .takeChanges) (d : Document) :
    ∃ f, Buffer.Carries d.buffer (apply d op).buffer f := by
  rcases buffer_apply_cases hop d with ⟨i, j, s, -, heq⟩ | ⟨-, ⟨row, heq⟩ | heq⟩ <;> rw [heq]
  · exact ⟨_, .replace d.buffer i j s⟩
  · exact ⟨_, .markDirty d.buffer row⟩
  · exact ⟨_, .flush d.buffer⟩

theorem carries_runAll (d : Document) {ops : List BufferOp} (hops : .takeChanges ∉ ops) :
    ∃ f, Buffer.Carries d.buffer (runAll ops d).buffer f := by
  induction ops generalizing d with
  | nil => exact ⟨id, .refl d.buffer⟩
  | cons op ops ih =>
    obtain ⟨hop, hops⟩ := not_or.1 (fun h => hops (List.mem_cons.2 h))
    obtain ⟨f, hf⟩ := carries_apply (Ne.symm hop) d
    obtain ⟨g, hg⟩ := ih (apply d op) hops
    exact ⟨f ∘ g, hf.trans hg⟩

end BufferOp

/-- No change goes unnoted. When the changes of a buffer are asked for, whatever has been done to it
before, and anything but that is done to it afterwards, then every row that is not noted as changed
is a row from the time of asking, with its text, tokens and modes, and these rows have kept their
order. The rows noted as changed or waiting are rows of the buffer. -/
theorem untouched_since_takeChanges {d : Document}
    (hd : d.buffer = .empty ∨ ∃ s, d.buffer = .ofText s) (past : List BufferOp)
    {ops : List BufferOp} (hops : .takeChanges ∉ ops) :
    let d₀ := BufferOp.runAll (past ++ [.takeChanges]) d
    let b := (BufferOp.runAll ops d₀).buffer
    (∃ f : Nat → Nat, StrictMonoOn f {row | row < b.lineCount ∧ row ∉ b.changes.changed} ∧
      ∀ row, row < b.lineCount → row ∉ b.changes.changed →
        f row < d₀.buffer.lineCount ∧ b.lines[row]? = d₀.buffer.lines[f row]?) ∧
    (∀ row ∈ b.changes.changed, row < b.lineCount) ∧ ∀ row ∈ b.dirty, row < b.lineCount := by
  intro d₀ b
  have hstart : d.buffer.Noted := by
    rcases hd with hd | ⟨s, hd⟩ <;> rw [hd]
    · exact .empty
    · exact ((Buffer.Noted.empty.replace 0 0 (normalizeBreaks s)).flush).takeChanges
  obtain ⟨f, hf⟩ := BufferOp.carries_runAll d₀ hops
  have hnoted : b.Noted := BufferOp.noted_runAll (BufferOp.noted_runAll hstart _) ops
  exact ⟨⟨f, hf.strict, fun row hlt hnot =>
    ⟨(hf.untouched row ⟨hlt, hnot⟩).1, hf.line row ⟨hlt, hnot⟩⟩⟩, hnoted.changed, hnoted.dirty⟩

/-- The second of four rows is deleted. The rows below have moved, and they are rows from before, in
the same order. -/
theorem untouched_since_takeChanges_delete :
    let d₀ := BufferOp.runAll ([.insertAt 0 ['x'] none none] ++ [.takeChanges])
      (.ofText ['a', '\n', 'b', '\n', 'c', '\n', 'd'])
    let b := (BufferOp.runAll [.deleteAt 2 2 none none, .flush] d₀).buffer
    b.lineCount = 3 ∧ b.changes.changed = [0] ∧ ∃ row row' : Nat, row < row' ∧
      row' < d₀.buffer.lineCount ∧ b.lines[1]? = d₀.buffer.lines[row]? ∧
      b.lines[2]? = d₀.buffer.lines[row']? := by
  intro d₀ b
  have hcount : b.lineCount = 3 := by decide +kernel
  have hchanged : b.changes.changed = [0] := by decide +kernel
  have hrow₁ : 1 < b.lineCount ∧ 1 ∉ b.changes.changed := by
    rw [hcount, hchanged]
    decide
  have hrow₂ : 2 < b.lineCount ∧ 2 ∉ b.changes.changed := by
    rw [hcount, hchanged]
    decide
  have hd : (Document.ofText ['a', '\n', 'b', '\n', 'c', '\n', 'd']).buffer = .empty ∨
      ∃ s, (Document.ofText ['a', '\n', 'b', '\n', 'c', '\n', 'd']).buffer = .ofText s :=
    Or.inr ⟨_, rfl⟩
  have hops : .takeChanges ∉ [BufferOp.deleteAt 2 2 none none, .flush] := by decide
  obtain ⟨⟨f, hmono, hf⟩, -, -⟩ :=
    untouched_since_takeChanges hd [.insertAt 0 ['x'] none none] hops
  have h₁ := hf 1 hrow₁.1 hrow₁.2
  have h₂ := hf 2 hrow₂.1 hrow₂.2
  exact ⟨hcount, hchanged, f 1, f 2, hmono hrow₁ hrow₂ (by decide), h₂.1, h₁.2, h₂.2⟩

end StructEdit
