import StructEdit.Document.Basic
import StructEdit.Proofs.Buffer.Replace

/-!
# Settled buffers

A buffer is settled when every row was scanned in the mode that the row above ends
in, and the first row in the mode of code. An edit unsettles a buffer, but only where a
row is marked: in a covered buffer, each row that was scanned in the wrong mode is
marked itself or stands right below a marked row. Editing, marking and asking for
the changes keep a buffer covered, and a flush settles a covered buffer. A settled
buffer is what scanning its texts from the first row down gives, so nothing is left
of the way it came about.
-/
namespace StructEdit
open Text

namespace Line

theorem start_of_scanAll {mode : Mode} {ss : List Text} {l : Line}
    (h : (scanAll mode ss)[0]? = some l) : l.start = mode := by
  cases ss with
  | nil => simp [scanAll] at h
  | cons s ss =>
    obtain rfl : scan s mode = l := by simpa [scanAll] using h
    rfl

theorem start_of_scanAll_succ {mode : Mode} {ss : List Text} {row : Nat} {l m : Line}
    (hl : (scanAll mode ss)[row]? = some l) (hm : (scanAll mode ss)[row + 1]? = some m) :
    m.start = l.stop := by
  induction ss generalizing mode row with
  | nil => simp [scanAll] at hl
  | cons s ss ih =>
    simp only [scanAll, List.getElem?_cons_succ] at hm
    cases row with
    | zero =>
      obtain rfl : scan s mode = l := by simpa [scanAll] using hl
      exact start_of_scanAll hm
    | succ row => exact ih (by simpa [scanAll] using hl) hm

/-- Lines in a chain of modes are what scanning their texts gives. -/
theorem scanAll_map_text {mode : Mode} {ls : List Line}
    (hfirst : ∀ l, ls[0]? = some l → l.start = mode)
    (hnext : ∀ row l m, ls[row]? = some l → ls[row + 1]? = some m → m.start = l.stop) :
    scanAll mode (ls.map text) = ls := by
  induction ls generalizing mode with
  | nil => rfl
  | cons l ls ih =>
    obtain rfl := hfirst l rfl
    rw [List.map_cons, scanAll, scan_start, ih]
    · intro m hm
      exact hnext 0 l m rfl (by simpa using hm)
    · intro row k m hk hm
      exact hnext (row + 1) k m (by simpa using hk) (by simpa using hm)

/-- Scanning the texts gives the same tokens and modes as keeping lines. -/
theorem map_scanAll (mode : Mode) (ss : List Text) :
    (scanAll mode ss).map (fun l => (l.tokens, l.stop)) = scanLines mode ss := by
  induction ss generalizing mode with
  | nil => rfl
  | cons s ss ih =>
    simp only [scanAll, scanLines, List.map_cons, ih]
    rfl

end Line

namespace Buffer

structure Settled (b : Buffer) : Prop where
  first : ∀ l, b.lines[0]? = some l → l.start = .code
  next : ∀ row l m, b.lines[row]? = some l → b.lines[row + 1]? = some m → m.start = l.stop

/-- Every row that was scanned in another mode is marked, or stands right below a marked row. -/
structure Covered (b : Buffer) : Prop where
  first : ∀ l, b.lines[0]? = some l → l.start = .code ∨ 0 ∈ b.dirty
  next : ∀ row l m, b.lines[row]? = some l → b.lines[row + 1]? = some m →
    m.start = l.stop ∨ row ∈ b.dirty ∨ row + 1 ∈ b.dirty

theorem Settled.covered {b : Buffer} (h : b.Settled) : b.Covered where
  first l hl := Or.inl (h.first l hl)
  next row l m hl hm := Or.inl (h.next row l m hl hm)

theorem Covered.settled {b : Buffer} (h : b.Covered) (hd : b.dirty = []) : b.Settled where
  first l hl := by simpa [hd] using h.first l hl
  next row l m hl hm := by simpa [hd] using h.next row l m hl hm

theorem settled_of_eq_scanAll {b : Buffer} {ss : List Text}
    (h : b.lines = Line.scanAll .code ss) : b.Settled where
  first _ hl := Line.start_of_scanAll (h ▸ hl)
  next _ _ _ hl hm := Line.start_of_scanAll_succ (h ▸ hl) (h ▸ hm)

theorem settled_empty : Buffer.empty.Settled :=
  settled_of_eq_scanAll (show _ = Line.scanAll .code [[]] from rfl)

end Buffer

/-! ## A flush settles -/

/-- One pass scans every line in the right mode when it starts right and each line in the wrong
mode is marked or stands below a marked one. The line that is met first may also be in the wrong
mode when the one above it was scanned in this pass. -/
theorem rescan_eq_scanAll {dirty : List Nat} {row : Nat} {above : Mode} {fresh : Bool}
    {ls : List Line}
    (h₀ : ∀ l, ls[0]? = some l → l.start = above ∨ row ∈ dirty ∨ fresh = true)
    (h : ∀ i l m, ls[i]? = some l → ls[i + 1]? = some m →
      m.start = l.stop ∨ row + i ∈ dirty ∨ row + i + 1 ∈ dirty) :
    (rescan dirty row above fresh ls).1 = Line.scanAll above (ls.map Line.text) := by
  induction ls generalizing row above fresh with
  | nil => rfl
  | cons l ls ih =>
    have hnext : ∀ i k m, ls[i]? = some k → ls[i + 1]? = some m →
        m.start = k.stop ∨ row + 1 + i ∈ dirty ∨ row + 1 + i + 1 ∈ dirty := by
      intro i k m hk hm
      have := h (i + 1) k m (by simpa using hk) (by simpa using hm)
      rwa [show row + (i + 1) = row + 1 + i by omega] at this
    simp only [rescan, List.map_cons, Line.scanAll]
    split
    · rename_i hscan
      have hrest := @ih (row + 1) (Line.scan l.text above).stop true
        (fun _ _ => Or.inr (Or.inr rfl)) hnext
      simp only [hrest]
    · rename_i hkeep
      simp only [not_or, not_and, ne_eq, Decidable.not_not] at hkeep
      obtain ⟨hclean, hfresh⟩ := hkeep
      have hstart : l.start = above := by
        rcases h₀ l rfl with hs | hd | hf
        · exact hs
        · exact absurd hd hclean
        · exact hfresh hf
      have hbelow : ∀ m, ls[0]? = some m →
          m.start = l.stop ∨ row + 1 ∈ dirty ∨ false = true := by
        intro m hm
        rcases h 0 l m rfl (by simpa using hm) with hs | hd | hd
        · exact Or.inl hs
        · exact absurd hd hclean
        · exact Or.inr (Or.inl hd)
      have hrest := @ih (row + 1) l.stop false hbelow hnext
      simp only [hrest, ← hstart, Line.scan_start]

/-- Where no row is marked, nothing is scanned. -/
theorem rescan_nil (row : Nat) (above : Mode) (ls : List Line) :
    rescan [] row above false ls = (ls, []) := by
  induction ls generalizing row above with
  | nil => rfl
  | cons l ls ih => simp [rescan, ih]

namespace Buffer

theorem flush_of_clean {b : Buffer} (h : b.dirty = []) : b.flush = b := by
  cases b
  simp only at h
  subst h
  simp [flush, rescan_nil, Changes.mark]

@[simp] theorem dirty_flush (b : Buffer) : b.flush.dirty = [] := rfl

@[simp] theorem map_text_flush (b : Buffer) :
    b.flush.lines.map Line.text = b.lines.map Line.text := by
  simp [flush]

/-- After a flush, a covered buffer is scanned from the first row down. -/
theorem Covered.lines_flush {b : Buffer} (h : b.Covered) :
    b.flush.lines = Line.scanAll .code (b.lines.map Line.text) :=
  rescan_eq_scanAll (fun l hl => (h.first l hl).imp id Or.inl)
    (fun i l m hl hm => by simpa using h.next i l m hl hm)

theorem Covered.flush {b : Buffer} (h : b.Covered) : b.flush.Settled :=
  settled_of_eq_scanAll h.lines_flush

/-! ## What keeps a buffer covered -/

end Buffer

namespace RowShift

theorem row?_of_lt {σ : RowShift} {row : Nat} (h : row < σ.start) : σ.row? row = some row := by
  rw [row?, if_pos h]

theorem row?_of_le {σ : RowShift} {row : Nat} (h : σ.start + σ.removed ≤ row) :
    σ.row? row = some (row - σ.removed + σ.added) := by
  rw [row?, if_neg (by omega), if_neg (by omega)]

end RowShift

namespace Buffer

theorem mem_dirty_markDirty {b : Buffer} {row r : Nat} (h : r ∈ b.dirty) :
    r ∈ (b.markDirty row).dirty := by
  unfold markDirty
  split
  · exact List.mem_append_left _ h
  · exact h

theorem mem_dirty_markDirty_self {b : Buffer} {row : Nat} (h : row < b.lines.length) :
    row ∈ (b.markDirty row).dirty := by
  unfold markDirty lineCount
  split
  · simp
  · rename_i hm
    exact Decidable.byContradiction fun hd => hm ⟨h, hd⟩

theorem Covered.markDirty {b : Buffer} (h : b.Covered) (row : Nat) : (b.markDirty row).Covered where
  first l hl := (h.first l (by simpa using hl)).imp id mem_dirty_markDirty
  next r l m hl hm := (h.next r l m (by simpa using hl) (by simpa using hm)).imp id
    (Or.imp mem_dirty_markDirty mem_dirty_markDirty)

theorem Covered.takeChanges {b : Buffer} (h : b.Covered) : b.takeChanges.2.Covered :=
  ⟨h.first, h.next⟩

/-- Whether rows come or go, one shift moves what is noted, and then both runs are noted of which
one is empty. -/
theorem resizeRows_eq (b : Buffer) (first removed added : Nat) :
    b.resizeRows first removed added =
      let b' := b.shiftRows ⟨first + 1, removed - added, added - removed⟩
      { b' with
        changes := (b'.changes.deleteRun (first + 1) (removed - added)).insertRun (first + 1)
          (added - removed) } := by
  unfold resizeRows
  split
  · rename_i h
    simp only [Nat.sub_eq_zero_of_le (Nat.le_of_lt h), Changes.insertRun, if_true]
  · rename_i h
    simp only [Nat.sub_eq_zero_of_le (Nat.le_of_not_lt h), Changes.deleteRun, if_true]

/-- Rows up to `first` stay where they are. -/
theorem mem_dirty_resizeRows_of_le {b : Buffer} {first removed added r : Nat} (h : r ∈ b.dirty)
    (hr : r ≤ first) : r ∈ (b.resizeRows first removed added).dirty := by
  rw [resizeRows_eq]
  exact List.mem_filterMap.2 ⟨r, h, RowShift.row?_of_lt (Nat.lt_succ_of_le hr)⟩

/-- Rows behind the removed ones move along. -/
theorem mem_dirty_resizeRows_of_lt {b : Buffer} {first removed added r : Nat} (h : r ∈ b.dirty)
    (hr : first + removed < r) :
    r - removed + added ∈ (b.resizeRows first removed added).dirty := by
  rw [resizeRows_eq]
  refine List.mem_filterMap.2 ⟨r, h, ?_⟩
  rw [RowShift.row?_of_le (by simp only; omega), Option.some.injEq]
  simp only
  omega

theorem mem_dirty_replace {b : Buffer} {i j : Nat} {s : Text} {r : Nat}
    (h : r ∈ (b.resizeRows (b.position (min i j)).row
      ((b.position (max i j)).row - (b.position (min i j)).row)
      ((b.freshLines i j s).length - 1)).dirty) : r ∈ (b.replace i j s).dirty := by
  rw [length_freshLines] at h
  simp only [replace]
  split
  · exact mem_dirty_markDirty h
  · exact mem_dirty_markDirty (mem_dirty_markDirty (mem_dirty_markDirty h))

/-- The last of the lines that a replacement scans is marked. -/
theorem last_mem_dirty_replace (b : Buffer) (i j : Nat) (s : Text) :
    (b.position (min i j)).row + ((b.freshLines i j s).length - 1) ∈ (b.replace i j s).dirty := by
  have hlen : (b.position (min i j)).row + ((b.freshLines i j s).length - 1) <
      (b.replace i j s).lines.length := by
    have hrows := b.row_add_freshLines_le i j s
    have hpos := b.length_freshLines_pos i j s
    omega
  rw [length_freshLines] at hlen ⊢
  simp only [replace] at hlen ⊢
  split
  · rename_i hlast
    rw [hlast] at hlen ⊢
    exact mem_dirty_markDirty_self (by simpa using hlen)
  · rename_i last hlast
    rw [hlast] at hlen ⊢
    exact mem_dirty_markDirty_self (by simpa using hlen)

/-- The rows after a replacement: the old ones in front, the scanned ones, the old ones behind. -/
theorem getElem?_lines_replace (b : Buffer) (i j : Nat) (s : Text) (row : Nat) :
    (b.replace i j s).lines[row]? =
      if row < (b.position (min i j)).row then b.lines[row]?
      else if row < (b.position (min i j)).row + (b.freshLines i j s).length then
        (b.freshLines i j s)[row - (b.position (min i j)).row]?
      else b.lines[row - ((b.position (min i j)).row + (b.freshLines i j s).length) +
        ((b.position (max i j)).row + 1)]? := by
  have hlen : (b.lines.take (b.position (min i j)).row).length = (b.position (min i j)).row := by
    rw [List.length_take, Nat.min_eq_left (Nat.le_of_lt (b.row_position_lt _))]
  rw [lines_replace, List.getElem?_append, List.length_append, hlen, List.getElem?_append, hlen]
  by_cases h₁ : row < (b.position (min i j)).row
  · rw [if_pos (by omega), if_pos h₁, if_pos h₁, List.getElem?_take, if_pos h₁]
  · rw [if_neg h₁, if_neg h₁]
    split
    · rfl
    · rw [List.getElem?_drop, Nat.add_comm]

theorem modeAt_succ {b : Buffer} {row : Nat} {l : Line} (h : b.lines[row]? = some l) :
    b.modeAt (row + 1) = l.stop := by
  simp [modeAt, h]

theorem Covered.replace {b : Buffer} (h : b.Covered) (i j : Nat) (s : Text) :
    (b.replace i j s).Covered := by
  have hrows := b.row_position_le i j
  have hpos := b.length_freshLines_pos i j s
  have hlast := b.last_mem_dirty_replace i j s
  have hget := b.getElem?_lines_replace i j s
  have hkeep : ∀ r ∈ b.dirty, r ≤ (b.position (min i j)).row → r ∈ (b.replace i j s).dirty :=
    fun r hr hle => mem_dirty_replace (mem_dirty_resizeRows_of_le hr hle)
  have hmove : ∀ r ∈ b.dirty, (b.position (max i j)).row < r →
      r - ((b.position (max i j)).row - (b.position (min i j)).row) +
        ((b.freshLines i j s).length - 1) ∈ (b.replace i j s).dirty :=
    fun r hr hlt => mem_dirty_replace (mem_dirty_resizeRows_of_lt hr (by omega))
  have hfresh : ∀ l, (b.freshLines i j s)[0]? = some l →
      l.start = b.modeAt (b.position (min i j)).row := fun l hl => Line.start_of_scanAll hl
  generalize (b.position (min i j)).row = p at *
  generalize (b.position (max i j)).row = q at *
  generalize hn : (b.freshLines i j s).length = n at *
  constructor
  · intro l hl
    rw [hget] at hl
    by_cases hp : 0 < p
    · rw [if_pos hp] at hl
      exact (h.first l hl).imp id fun hd => hkeep 0 hd (by omega)
    · obtain rfl : p = 0 := by omega
      rw [if_neg hp, if_pos (by omega)] at hl
      exact Or.inl (hfresh l hl)
  · intro row l m hl hm
    rw [hget] at hl hm
    by_cases h₁ : row + 1 < p
    · rw [if_pos (by omega)] at hl
      rw [if_pos h₁] at hm
      rcases h.next row l m hl hm with hs | hd | hd
      · exact Or.inl hs
      · exact Or.inr (Or.inl (hkeep row hd (by omega)))
      · exact Or.inr (Or.inr (hkeep (row + 1) hd (by omega)))
    rw [if_neg h₁] at hm
    by_cases h₂ : row + 1 = p
    · rw [if_pos (by omega)] at hl
      rw [if_pos (by omega), h₂, Nat.sub_self] at hm
      refine Or.inl ?_
      rw [hfresh m hm, ← h₂, modeAt_succ hl]
    rw [if_neg (by omega)] at hl
    by_cases h₃ : row + 1 < p + n
    · rw [if_pos (by omega)] at hl
      rw [if_pos h₃, show row + 1 - p = row - p + 1 by omega] at hm
      exact Or.inl (Line.start_of_scanAll_succ hl hm)
    rw [if_neg h₃] at hm
    by_cases h₄ : row < p + n
    · obtain rfl : row = p + (n - 1) := by omega
      exact Or.inr (Or.inl hlast)
    · rw [if_neg h₄] at hl
      rw [show row + 1 - (p + n) + (q + 1) = row - (p + n) + (q + 1) + 1 by omega] at hm
      rcases h.next _ l m hl hm with hs | hd | hd
      · exact Or.inl hs
      · have := hmove _ hd (by omega)
        rw [show row - (p + n) + (q + 1) - (q - p) + (n - 1) = row by omega] at this
        exact Or.inr (Or.inl this)
      · have := hmove _ hd (by omega)
        rw [show row - (p + n) + (q + 1) + 1 - (q - p) + (n - 1) = row + 1 by omega] at this
        exact Or.inr (Or.inr this)

theorem covered_ofText (s : Text) : (ofText s).Covered :=
  (settled_empty.covered.replace 0 0 (normalizeBreaks s)).flush.covered.takeChanges

/-- The texts after a replacement depend on the texts before it alone. -/
theorem map_text_replace_congr {b c : Buffer} (h : b.lines.map Line.text = c.lines.map Line.text)
    (i j : Nat) (s : Text) :
    (b.replace i j s).lines.map Line.text = (c.replace i j s).lines.map Line.text := by
  have hpos : ∀ n, b.position n = c.position n := fun n => locate_congr h n
  have htext : ∀ row, b.lineText row = c.lineText row := by
    intro row
    have hb : b.lineText row = ((b.lines.map Line.text)[row]?).getD [] := by
      simp only [lineText, List.getElem?_map]
      cases b.lines[row]? <;> rfl
    have hc : c.lineText row = ((c.lines.map Line.text)[row]?).getD [] := by
      simp only [lineText, List.getElem?_map]
      cases c.lines[row]? <;> rfl
    rw [hb, hc, h]
  rw [lines_replace, lines_replace, freshLines, freshLines]
  simp only [List.map_append, Line.map_text_scanAll, List.map_take, List.map_drop, hpos, htext, h]

end Buffer

/-! ## Runs -/

/-- What can be asked of the buffer of a document, below the level of commands. -/
inductive BufferOp where
  | change (i j : Nat) (text : Text) (before after : Option Selection)
  | insertAt (offset : Nat) (text : Text) (before after : Option Selection)
  | deleteAt (offset count : Nat) (before after : Option Selection)
  | markDirty (row : Nat)
  | takeChanges
  | flush
  deriving DecidableEq, Repr

namespace BufferOp

def apply (d : Document) : BufferOp → Document
  | .change i j text before after => d.change i j text before after
  | .insertAt offset text before after => (d.insertAt offset text before after).1
  | .deleteAt offset count before after => d.deleteAt offset count before after
  | .markDirty row => { d with buffer := d.buffer.markDirty row }
  | .takeChanges => { d with buffer := d.buffer.takeChanges.2 }
  | .flush => d.flush

def runAll (ops : List BufferOp) (d : Document) : Document := ops.foldl apply d

end BufferOp

@[simp] theorem Document.buffer_change (d : Document) (i j : Nat) (s : Text)
    (before after : Option Selection) :
    (d.change i j s before after).buffer = d.buffer.replace i j s := by
  simp only [Document.change]
  split <;> rfl

namespace BufferOp

/-- What every operation keeps holds along a run. -/
theorem runAll_of_apply {P : Document → Prop} (hstep : ∀ d op, P d → P (apply d op))
    {d : Document} (h : P d) (ops : List BufferOp) : P (runAll ops d) := by
  induction ops generalizing d with
  | nil => exact h
  | cons op ops ih => exact ih (hstep d op h)

/-- Whether the document is recording makes no difference to its buffer. -/
theorem covered_apply {d : Document} (h : d.buffer.Covered) (op : BufferOp) :
    (apply d op).buffer.Covered := by
  cases op with
  | change i j s before after => simpa [apply] using h.replace i j s
  | insertAt offset s before after =>
    simpa [apply, Document.insertAt] using h.replace offset offset (normalizeBreaks s)
  | deleteAt offset count before after =>
    simpa [apply, Document.deleteAt] using h.replace offset (offset + count) []
  | markDirty row => exact h.markDirty row
  | takeChanges => exact h.takeChanges
  | flush => exact h.flush.covered

theorem covered_runAll {d : Document} (h : d.buffer.Covered) (ops : List BufferOp) :
    (runAll ops d).buffer.Covered :=
  runAll_of_apply (P := fun d => d.buffer.Covered) (fun _ op h => covered_apply h op) h ops

theorem unbroken_apply {d : Document} (h : d.buffer.Unbroken) (op : BufferOp) :
    (apply d op).buffer.Unbroken := by
  cases op with
  | change i j s before after => simpa [apply] using h.replace i j s
  | insertAt offset s before after =>
    simpa [apply, Document.insertAt] using h.replace offset offset (normalizeBreaks s)
  | deleteAt offset count before after =>
    simpa [apply, Document.deleteAt] using h.replace offset (offset + count) []
  | markDirty row => simpa [apply, Buffer.Unbroken] using h
  | takeChanges => exact h
  | flush => exact h.flush

theorem unbroken_runAll {d : Document} (h : d.buffer.Unbroken) (ops : List BufferOp) :
    (runAll ops d).buffer.Unbroken :=
  runAll_of_apply (P := fun d => d.buffer.Unbroken) (fun _ op h => unbroken_apply h op) h ops

theorem map_text_apply_congr {d e : Document}
    (h : d.buffer.lines.map Line.text = e.buffer.lines.map Line.text) (op : BufferOp) :
    (apply d op).buffer.lines.map Line.text = (apply e op).buffer.lines.map Line.text := by
  cases op with
  | change i j s before after =>
    simpa [apply] using Buffer.map_text_replace_congr h i j s
  | insertAt offset s before after =>
    simpa [apply, Document.insertAt] using
      Buffer.map_text_replace_congr h offset offset (normalizeBreaks s)
  | deleteAt offset count before after =>
    simpa [apply, Document.deleteAt] using
      Buffer.map_text_replace_congr h offset (offset + count) []
  | markDirty row => simpa [apply] using h
  | takeChanges => exact h
  | flush => simpa [apply, Document.flush] using h

/-- Flushes in between leave the texts alone. -/
theorem map_text_runAll_filter {d e : Document}
    (h : d.buffer.lines.map Line.text = e.buffer.lines.map Line.text) (ops : List BufferOp) :
    (runAll ops d).buffer.lines.map Line.text =
      (runAll (ops.filter (· ≠ .flush)) e).buffer.lines.map Line.text := by
  induction ops generalizing d e with
  | nil => exact h
  | cons op ops ih =>
    by_cases hop : op = .flush
    · subst hop
      simp only [ne_eq, not_true_eq_false, decide_false, Bool.false_eq_true,
        not_false_eq_true, List.filter_cons_of_neg]
      exact ih (by simpa [apply, Document.flush] using h)
    · simp only [ne_eq, hop, not_false_eq_true, decide_true, List.filter_cons_of_pos]
      exact ih (map_text_apply_congr h op)

end BufferOp

/-- Incremental scanning is scanning from the start. Whatever is done to a new buffer, a flush leaves
every row scanned in the mode that the row above ends in, the first one in the mode of code. The
tokens and modes are those of scanning the texts one after the other, and flushes in between
make no difference. -/
theorem lines_flush_runAll {d : Document}
    (hd : d.buffer = .empty ∨ ∃ s, d.buffer = .ofText s) (ops : List BufferOp) :
    let b := (BufferOp.runAll ops d).buffer
    (∀ l, b.flush.lines[0]? = some l → l.start = .code) ∧
    (∀ (row : Nat) (l m : Line), b.flush.lines[row]? = some l → b.flush.lines[row + 1]? = some m →
      m.start = l.stop) ∧
    (∀ (row : Nat) (l : Line), b.flush.lines[row]? = some l →
      (l.tokens, l.stop) = scanLine l.text l.start) ∧
    b.flush.lines.map Line.text = b.lines.map Line.text ∧
    b.flush.lines.map (fun l => (l.tokens, l.stop)) = scanLines .code (b.lines.map Line.text) ∧
    b.flush.lines =
      (BufferOp.runAll (ops.filter (· ≠ .flush)) d).buffer.flush.lines := by
  have hstart : d.buffer.Covered := by
    rcases hd with hd | ⟨s, hd⟩ <;> rw [hd]
    · exact Buffer.settled_empty.covered
    · exact Buffer.covered_ofText s
  have hrun := BufferOp.covered_runAll hstart ops
  have hrun' := BufferOp.covered_runAll hstart (ops.filter (· ≠ .flush))
  refine ⟨hrun.flush.first, hrun.flush.next, fun _ l _ => l.scanned.symm,
    Buffer.map_text_flush _, ?_, ?_⟩
  · rw [hrun.lines_flush, Line.map_scanAll]
  · rw [hrun.lines_flush, hrun'.lines_flush, BufferOp.map_text_runAll_filter rfl ops]

/-- A quote that comes and goes, with a flush in between. -/
theorem lines_flush_runAll_quote :
    ((BufferOp.runAll [.insertAt 0 ['"'] none none, .flush, .deleteAt 0 1 none none]
      (.ofText ['a', '\n', 'b'])).buffer.flush.lines.map fun l => (l.tokens, l.stop)) =
      scanLines .code [['a'], ['b']] := by
  have hd : (Document.ofText ['a', '\n', 'b']).buffer = .empty ∨
      ∃ s, (Document.ofText ['a', '\n', 'b']).buffer = .ofText s := Or.inr ⟨_, rfl⟩
  have h := (lines_flush_runAll hd
    [.insertAt 0 ['"'] none none, .flush, .deleteAt 0 1 none none]).2.2.2.2.1
  rw [h]
  congr 1
  decide +kernel

end StructEdit
