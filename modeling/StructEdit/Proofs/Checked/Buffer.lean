import StructEdit.Proofs.Buffer.Settled

/-!
# Checked operations on buffers

The library counts with differences that stop at zero, and looks up rows that may not be there.
Here the same operations are written with differences and look-ups that have no value where they
make no sense: `sub a b` has one when `b` is at most `a`, a row is looked up by its number, and a
run of rows is cut out between two numbers. An operation has a value when all the differences
and look-ups on its way have one. It always does, and it is the value of the unchecked operation.

This module does it for offsets, for the text between two of them and for replacing.
-/
namespace StructEdit
open Text

namespace Checked

/-- The difference, where it is a number. -/
def sub (a b : Nat) : Option Nat := if b ≤ a then some (a - b) else none

/-- The elements from one number up to another, where there are so many. -/
def between {α : Type} (xs : List α) (i j : Nat) : Option (List α) :=
  if i ≤ j ∧ j ≤ xs.length then some ((xs.take j).drop i) else none

theorem sub_of_le {a b : Nat} (h : b ≤ a) : sub a b = some (a - b) := if_pos h

theorem between_of_le {α : Type} {xs : List α} {i j : Nat} (hi : i ≤ j) (hj : j ≤ xs.length) :
    between xs i j = some ((xs.take j).drop i) := if_pos ⟨hi, hj⟩

/-! ## Lines -/

/-- The parts of a text between its breaks, each with a `\r` in front of the break left in. -/
def parts : Text → List Text
  | [] => [[]]
  | c :: s => if c = '\n' then [] :: parts s else consLine c (parts s)

/-- A line without a `\r` at its end. -/
def stripReturn (l : Text) : Text := if l.getLast? = some '\r' then l.dropLast else l

/-- The lines of a text; the last one keeps a `\r` at its end. -/
def splitLines (s : Text) : Option (List Text) := do
  let last ← sub (parts s).length 1
  let closed ← between (parts s) 0 last
  return closed.map stripReturn ++ (parts s).drop last

theorem parts_ne_nil (s : Text) : parts s ≠ [] := by
  cases s with
  | nil => simp [parts]
  | cons c s =>
    simp only [parts]
    split
    · simp
    · exact consLine_ne_nil c _

/-- All lines but the last stripped. -/
def stripAll (ls : List Text) : List Text :=
  (ls.take (ls.length - 1)).map stripReturn ++ ls.drop (ls.length - 1)

theorem stripAll_cons (l : Text) {ls : List Text} (h : ls ≠ []) :
    stripAll (l :: ls) = stripReturn l :: stripAll ls := by
  have hlen : (l :: ls).length - 1 = ls.length - 1 + 1 := by
    have := List.length_pos_iff.2 h
    simp only [List.length_cons]
    omega
  rw [stripAll, hlen]
  rfl

theorem stripReturn_cons {c : Char} {l : Text} (h : c = '\r' → l ≠ []) :
    stripReturn (c :: l) = c :: stripReturn l := by
  cases l with
  | nil =>
    have hc : c ≠ '\r' := fun hc => h hc rfl
    simp [stripReturn, hc]
  | cons d l =>
    simp only [stripReturn, List.getLast?_cons_cons]
    split <;> rfl

/-- A character in front belongs to the first line. Only a `\r` in front of a break goes with it. -/
theorem stripAll_consLine {c : Char} {l : Text} {ls : List Text}
    (h : c = '\r' → ls ≠ [] → l ≠ []) :
    stripAll (consLine c (l :: ls)) = consLine c (stripAll (l :: ls)) := by
  cases ls with
  | nil => rfl
  | cons m ls =>
    have hne : m :: ls ≠ [] := List.cons_ne_nil m ls
    rw [consLine, stripAll_cons _ hne, stripAll_cons _ hne, stripReturn_cons fun hc => h hc hne]
    rfl

theorem stripAll_parts (s : Text) : stripAll (parts s) = Text.splitLines s := by
  fun_induction Text.splitLines s with
  | case1 => rfl
  | case2 s ih =>
    rw [← ih]
    simp only [parts, Char.reduceEq, ↓reduceIte, consLine]
    rw [stripAll_cons _ (parts_ne_nil s)]
    rfl
  | case3 s ih =>
    rw [← ih, parts, if_pos rfl, stripAll_cons _ (parts_ne_nil s)]
    rfl
  | case4 c s h₁ h₂ ih =>
    have hc : c ≠ '\n' := fun hc => h₂ hc
    obtain ⟨l, ls, hparts⟩ := List.exists_cons_of_ne_nil (parts_ne_nil s)
    rw [← ih, parts, if_neg hc, hparts, stripAll_consLine]
    rintro rfl hne rfl
    cases s with
    | nil => exact hne (List.cons.inj hparts).2.symm
    | cons d s =>
      simp only [parts] at hparts
      split at hparts
      · rename_i hd
        exact h₁ s rfl (by rw [hd])
      · cases hrest : parts s with
        | nil => exact parts_ne_nil s hrest
        | cons m ms =>
          rw [hrest, consLine] at hparts
          simp at hparts

theorem splitLines_eq (s : Text) : splitLines s = some (Text.splitLines s) := by
  have hpos := List.length_pos_iff.2 (parts_ne_nil s)
  simp only [splitLines, sub_of_le (show 1 ≤ (parts s).length from hpos), Option.bind_eq_bind,
    Option.bind_some, between_of_le (Nat.zero_le _) (Nat.sub_le _ _), List.drop_zero]
  exact congrArg some (stripAll_parts s)

/-! ## Offsets -/

def maxOffset (b : Buffer) : Option Nat := sub (extent b.lines) 1

@[simp] theorem maxOffset_eq (b : Buffer) : maxOffset b = some b.maxOffset :=
  sub_of_le (extent_pos b.lines_ne_nil)

/-- The position of an offset, counted from `row` on; an offset behind all lines is at the end of
the last one. -/
def locate (lines : List Line) (row offset : Nat) : List Line → Option Position
  | [] => do
    let last ← sub lines.length 1
    let l ← lines[last]?
    return ⟨last, l.length⟩
  | l :: below =>
    if l.length < offset then do
      let offset ← sub offset (l.length + 1)
      locate lines (row + 1) offset below
    else return ⟨row, offset⟩

def position (b : Buffer) (offset : Nat) : Option Position := locate b.lines 0 offset b.lines

theorem locate_eq (above : List Line) {below : List Line} (h : below ≠ []) (offset : Nat) :
    locate (above ++ below) above.length offset below =
      some ⟨above.length + (StructEdit.locate below offset).row,
        (StructEdit.locate below offset).column⟩ := by
  induction below generalizing above offset with
  | nil => exact absurd rfl h
  | cons l below ih =>
    simp only [locate]
    cases below with
    | nil =>
      split
      · rename_i hlt
        simp only [sub_of_le hlt, locate, Option.bind_eq_bind, Option.bind_some, List.length_append,
          List.length_singleton, Nat.add_sub_cancel, sub_of_le (Nat.le_add_left 1 above.length),
          List.getElem?_append_right (Nat.le_refl _), Nat.sub_self, List.getElem?_cons_zero,
          StructEdit.locate, Nat.min_eq_right (Nat.le_of_lt hlt), Nat.add_zero]
        rfl
      · rename_i hge
        simp only [StructEdit.locate, Nat.min_eq_left (Nat.le_of_not_lt hge), Nat.add_zero]
        rfl
    | cons m below =>
      rw [StructEdit.locate.eq_3 offset l (m :: below) (by simp)]
      split
      · rename_i hlt
        have hrest := ih (above ++ [l]) (by simp) (offset - (l.length + 1))
        simp only [List.append_assoc, List.singleton_append, List.length_append,
          List.length_singleton] at hrest
        simp only [sub_of_le hlt, Option.bind_eq_bind, Option.bind_some, hrest,
          if_neg (Nat.not_le_of_lt hlt)]
        congr 2
        omega
      · rename_i hge
        rw [if_pos (Nat.le_of_not_lt hge)]
        rfl

@[simp] theorem position_eq (b : Buffer) (offset : Nat) :
    position b offset = some (b.position offset) := by
  have h := locate_eq [] b.lines_ne_nil offset
  simp only [List.nil_append, List.length_nil, Nat.zero_add] at h
  exact h

/-- The text between two offsets, row by row. -/
def textBetween (b : Buffer) (i j : Nat) : Option Text := do
  let p ← position b (min i j)
  let q ← position b (max i j)
  let first ← b.lines[p.row]?
  if p.row = q.row then return Text.slice first.text p.column q.column
  else
    let middle ← between b.lines (p.row + 1) q.row
    let last ← b.lines[q.row]?
    return joinLines (Text.sliceFrom first.text p.column :: middle.map Line.text ++
      [Text.slice last.text 0 q.column])

def slice (b : Buffer) (i j : Nat) : Option Text :=
  if i = j then some [] else textBetween b i j

def sliceWithin (b : Buffer) (i j : Nat) : Option Text :=
  if i = j then some []
  else do
    let limit ← maxOffset b
    if limit < max i j then return [] else textBetween b i j

theorem textBetween_eq (b : Buffer) (i j : Nat) : textBetween b i j = some (b.slice i j) := by
  obtain ⟨l, hl, -⟩ := b.exists_line_position (min i j)
  obtain ⟨m, hm, -⟩ := b.exists_line_position (max i j)
  have hrows : (b.position (min i j)).row ≤ (b.position (max i j)).row :=
    row_locate_mono b.lines (by omega)
  have hlt := b.row_position_lt (max i j)
  simp only [textBetween, position_eq, Option.bind_eq_bind, Option.bind_some, hl, hm, Buffer.slice,
    Buffer.textBetween, Buffer.lineText_eq hl, Buffer.lineText_eq hm]
  split
  · rfl
  · rename_i hne
    rw [between_of_le (by omega) (Nat.le_of_lt hlt)]
    rfl

@[simp] theorem slice_eq (b : Buffer) (i j : Nat) : slice b i j = some (b.slice i j) := by
  unfold slice
  split
  · rename_i h
    rw [h, Buffer.slice_self]
  · exact textBetween_eq b i j

@[simp] theorem sliceWithin_eq (b : Buffer) (i j : Nat) :
    sliceWithin b i j = some (b.sliceWithin i j) := by
  unfold sliceWithin
  split
  · rename_i h
    rw [h, Buffer.sliceWithin, Buffer.slice_self, ite_self]
  · rw [maxOffset_eq, Option.bind_eq_bind, Option.bind_some, textBetween_eq, Buffer.sliceWithin]
    split <;> rfl

/-! ## Rows that move -/

/-- The new number of a row at or behind `start`, when `removed` rows there gave way to `added`. -/
def shiftRow (σ : RowShift) (row : Nat) : Option Nat :=
  if σ.start ≤ row then sub (row + σ.added) σ.removed else some row

/-- The row is not one of those that were removed. -/
def stays (σ : RowShift) (row : Nat) : Bool :=
  !(decide (σ.start ≤ row) && decide (row < σ.start + σ.removed))

def shiftRun (σ : RowShift) (r : Run) : Option Run := do
  let first ← shiftRow σ r.first
  return { r with first }

def shiftRows (b : Buffer) (σ : RowShift) : Option Buffer := do
  let dirty ← (b.dirty.filter (stays σ)).mapM (shiftRow σ)
  let changed ← (b.changes.changed.filter (stays σ)).mapM (shiftRow σ)
  let inserted ← (b.changes.inserted.filter (stays σ ·.first)).mapM (shiftRun σ)
  let deleted ← (b.changes.deleted.filter (stays σ ·.first)).mapM (shiftRun σ)
  return { b with dirty, changes := ⟨changed, inserted, deleted⟩ }

/-- A row that stays is far enough behind to be moved. -/
theorem shiftRow_eq {σ : RowShift} {row : Nat} (h : stays σ row = true) :
    ∃ n, shiftRow σ row = some n ∧ σ.row? row = some n := by
  simp only [stays, Bool.not_eq_true', Bool.and_eq_false_iff, decide_eq_false_iff_not] at h
  unfold shiftRow RowShift.row?
  by_cases hrow : row < σ.start
  · exact ⟨row, by rw [if_neg (by omega)], by rw [if_pos hrow]⟩
  · refine ⟨row + σ.added - σ.removed, ?_, ?_⟩
    · rw [if_pos (by omega), sub_of_le (by omega)]
    · rw [if_neg hrow, if_neg (by omega)]
      congr 1
      omega

theorem row?_of_not_stays {σ : RowShift} {row : Nat} (h : stays σ row = false) :
    σ.row? row = none := by
  simp only [stays, Bool.not_eq_false', Bool.and_eq_true, decide_eq_true_eq] at h
  rw [RowShift.row?, if_neg (by omega), if_pos h.2]

/-- Leaving out elements and then changing the others one by one, in one go. -/
theorem mapM_filter {α β : Type} {keep : α → Bool} {f g : α → Option β} (xs : List α)
    (hkeep : ∀ x, keep x = true → ∃ y, f x = some y ∧ g x = some y)
    (hdrop : ∀ x, keep x = false → g x = none) :
    (xs.filter keep).mapM f = some (xs.filterMap g) := by
  induction xs with
  | nil => rfl
  | cons x xs ih =>
    cases hx : keep x with
    | true =>
      obtain ⟨y, hf, hg⟩ := hkeep x hx
      simp [hx, hf, hg, ih]
    | false => simp [hx, hdrop x hx, ih]

theorem shiftRows_eq (b : Buffer) (σ : RowShift) : shiftRows b σ = some (b.shiftRows σ) := by
  have hrows : ∀ rows : List Nat, (rows.filter (stays σ)).mapM (shiftRow σ) =
      some (rows.filterMap σ.row?) :=
    fun rows => mapM_filter rows (fun _ h => shiftRow_eq h) fun _ h => row?_of_not_stays h
  have hruns : ∀ runs : List Run, (runs.filter (stays σ ·.first)).mapM (shiftRun σ) =
      some (runs.filterMap (Run.shift? σ)) := by
    intro runs
    refine mapM_filter runs (fun r h => ?_) fun r h => ?_
    · obtain ⟨n, hn, hrow⟩ := shiftRow_eq h
      exact ⟨{ r with first := n }, by simp [shiftRun, hn], by simp [Run.shift?, hrow]⟩
    · simp [Run.shift?, row?_of_not_stays h]
  simp only [shiftRows, hrows, hruns, Option.bind_eq_bind, Option.bind_some]
  rfl

def resizeRows (b : Buffer) (first removed added : Nat) : Option Buffer :=
  if added < removed then do
    let count ← sub removed added
    let b ← shiftRows b ⟨first + 1, count, 0⟩
    return { b with changes := b.changes.deleteRun (first + 1) count }
  else do
    let count ← sub added removed
    let b ← shiftRows b ⟨first + 1, 0, count⟩
    return { b with changes := b.changes.insertRun (first + 1) count }

theorem resizeRows_eq (b : Buffer) (first removed added : Nat) :
    resizeRows b first removed added = some (b.resizeRows first removed added) := by
  unfold resizeRows Buffer.resizeRows
  split
  · rename_i h
    simp only [sub_of_le (Nat.le_of_lt h), shiftRows_eq, Option.bind_eq_bind, Option.bind_some]
    rfl
  · rename_i h
    simp only [sub_of_le (Nat.le_of_not_lt h), shiftRows_eq, Option.bind_eq_bind, Option.bind_some]
    rfl

/-! ## Replacing -/

/-- Other rows in the place of those from one number to another, where there are such rows. -/
def spliceRows (lines : List Line) (first last : Nat) (fresh : List Line) : Option (List Line) :=
  if first ≤ last ∧ last < lines.length then
    some (lines.take first ++ fresh ++ lines.drop (last + 1))
  else none

/-- A buffer needs a line. -/
def ofLines (lines : List Line) (dirty : List Nat) (changes : Changes) : Option Buffer :=
  if h : lines ≠ [] then some ⟨lines, h, dirty, changes⟩ else none

def replace (b : Buffer) (i j : Nat) (text : Text) : Option Buffer := do
  let p ← position b (min i j)
  let q ← position b (max i j)
  let pieces ← splitLines (normalizeBreaks text)
  let first ← b.lines[p.row]?
  let final ← b.lines[q.row]?
  let texts := wrapPieces (Text.slice first.text 0 p.column) (Text.sliceFrom final.text q.column)
    pieces
  let last ← sub pieces.length 1
  let removed ← sub q.row p.row
  let tracked ← resizeRows b p.row removed last
  let lines ← spliceRows b.lines p.row q.row (Line.scanAll (b.modeAt p.row) texts)
  let marked ← ofLines lines tracked.dirty
    (tracked.changes.mark (List.range' p.row pieces.length))
  let b := marked.markDirty p.row
  return if 0 < last then (b.markDirty (p.row + 1)).markDirty (p.row + last) else b

@[simp] theorem replace_eq (b : Buffer) (i j : Nat) (text : Text) :
    replace b i j text = some (b.replace i j text) := by
  obtain ⟨l, hl, -⟩ := b.exists_line_position (min i j)
  obtain ⟨m, hm, -⟩ := b.exists_line_position (max i j)
  have hrows : (b.position (min i j)).row ≤ (b.position (max i j)).row :=
    row_locate_mono b.lines (by omega)
  have hlt := b.row_position_lt (max i j)
  have hpos : 1 ≤ (Text.splitLines (normalizeBreaks text)).length :=
    List.length_pos_iff.2 (splitLines_ne_nil _)
  have hne := (b.splice (b.position (min i j)) (b.position (max i j))
    (Text.splitLines (normalizeBreaks text))).lines_ne_nil
  simp only [Buffer.splice, Buffer.lineText_eq hl, Buffer.lineText_eq hm] at hne
  simp only [replace, position_eq, splitLines_eq, Option.bind_eq_bind, Option.bind_some, hl, hm,
    sub_of_le hpos, sub_of_le hrows, resizeRows_eq, spliceRows, hrows, hlt, and_self, ↓reduceIte,
    ofLines, dif_pos hne, Option.pure_def, Buffer.replace, Buffer.splice,
    Buffer.lineText_eq hl, Buffer.lineText_eq hm]
  split
  · rename_i hlast
    obtain ⟨n, hn⟩ := Nat.exists_eq_add_one.2 hlast
    simp only [hn]
  · rename_i hlast
    have hzero : (Text.splitLines (normalizeBreaks text)).length - 1 = 0 := by omega
    simp only [hzero]

end Checked
end StructEdit
