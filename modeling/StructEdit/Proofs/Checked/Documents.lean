import StructEdit.Document.Caret
import StructEdit.Document.Typing
import StructEdit.Proofs.Checked.Flush

/-!
# Checked changes of documents

Selecting, replacing, transactions, replaying a step, plain editing and the motions of the caret,
each with its differences and look-ups. A transaction of work that always has a value has one.
-/
namespace StructEdit
open Text

namespace Checked

/-! ## Panes and steps -/

def selectPane (p : Pane) (s : Selection) : Option Pane := do
  let limit ← maxOffset p.buffer
  return { p with selection := s.clamp limit }

def selectAny (p : Pane) : Option Selection → Option Pane
  | none => some p
  | some s => selectPane p s

def replacePane (p : Pane) (i j : Nat) (text : Text) : Option Pane := do
  let buffer ← replace p.buffer i j text
  return { p with buffer }

mutual

def undoStep : Step → Pane → Option Pane
  | .edit e t, p => do
    let p ← replacePane p e.start (e.start + e.inserted.length) e.deleted
    selectAny p t.before
  | .group ss t, p => do
    let p ← undoSteps ss p
    selectAny p t.before

/-- Undoes the steps, the last one first. -/
def undoSteps : List Step → Pane → Option Pane
  | [], p => some p
  | s :: ss, p => do
    let p ← undoSteps ss p
    undoStep s p

end

mutual

def redoStep : Step → Pane → Option Pane
  | .edit e t, p => do
    let p ← replacePane p e.start (e.start + e.deleted.length) e.inserted
    selectAny p t.after
  | .group ss t, p => do
    let p ← redoSteps ss p
    selectAny p t.after

/-- Redoes the steps, the first one first. -/
def redoSteps : List Step → Pane → Option Pane
  | [], p => some p
  | s :: ss, p => do
    let p ← redoStep s p
    redoSteps ss p

end

theorem selectPane_eq (p : Pane) (s : Selection) : selectPane p s = some (p.select s) := by
  rw [selectPane, maxOffset_eq]
  rfl

theorem selectAny_eq (p : Pane) (s : Option Selection) : selectAny p s = some (p.selectAny s) := by
  cases s with
  | none => rfl
  | some s => exact selectPane_eq p s

theorem replacePane_eq (p : Pane) (i j : Nat) (text : Text) :
    replacePane p i j text = some (p.replace i j text) := by
  rw [replacePane, replace_eq]
  rfl

mutual

theorem undoStep_eq (s : Step) (p : Pane) : undoStep s p = some (s.undo p) := by
  cases s with
  | edit e t =>
    rw [undoStep, replacePane_eq, Option.bind_eq_bind, Option.bind_some, selectAny_eq, Step.undo]
    rfl
  | group ss t =>
    rw [undoStep, undoSteps_eq ss p, Option.bind_eq_bind, Option.bind_some, selectAny_eq, Step.undo]

theorem undoSteps_eq (ss : List Step) (p : Pane) : undoSteps ss p = some (Step.undoAll ss p) := by
  cases ss with
  | nil => rw [undoSteps, Step.undoAll]
  | cons s ss =>
    rw [undoSteps, undoSteps_eq ss p, Option.bind_eq_bind, Option.bind_some,
      undoStep_eq s (Step.undoAll ss p), Step.undoAll]

end

mutual

theorem redoStep_eq (s : Step) (p : Pane) : redoStep s p = some (s.redo p) := by
  cases s with
  | edit e t =>
    rw [redoStep, replacePane_eq, Option.bind_eq_bind, Option.bind_some, selectAny_eq, Step.redo]
    rfl
  | group ss t =>
    rw [redoStep, redoSteps_eq ss p, Option.bind_eq_bind, Option.bind_some, selectAny_eq, Step.redo]

theorem redoSteps_eq (ss : List Step) (p : Pane) : redoSteps ss p = some (Step.redoAll ss p) := by
  cases ss with
  | nil => rw [redoSteps, Step.redoAll]
  | cons s ss =>
    rw [redoSteps, redoStep_eq s p, Option.bind_eq_bind, Option.bind_some,
      redoSteps_eq ss (s.redo p), Step.redoAll]

end

/-! ## Documents -/

def select (d : Document) (s : Selection) : Option Document := do
  let p ← selectPane d.toPane s
  return { d with toPane := p }

def setCaret (d : Document) (offset : Nat) : Option Document := select d (.point offset)

def setAnchor (d : Document) (offset : Nat) : Option Document := do
  let limit ← maxOffset d.buffer
  return { d with selection := ⟨min offset limit, d.caret⟩ }

def stretchTo (d : Document) (offset : Nat) : Option Document := do
  let limit ← maxOffset d.buffer
  return { d with selection := ⟨d.selection.anchor, min offset limit⟩ }

def keepColumn (d : Document) : Option Document := do
  let p ← position d.buffer d.caret
  return { d with caretColumn := p.column }

def flushAll (d : Document) : Option Document := do
  let buffer ← flush d.buffer
  return { d with buffer }

/-- Puts `text` in the place of the characters between two offsets. While a step is recorded, the
text that goes is read first. -/
def change (d : Document) (i j : Nat) (text : Text) (before after : Option Selection) :
    Option Document :=
  if d.recording then do
    let deleted ← slice d.buffer i j
    let p ← replacePane d.toPane i j text
    return { d with toPane := p }.record
      (.edit ⟨min i j, normalizeBreaks text, deleted⟩ ⟨before, after, false⟩)
  else do
    let p ← replacePane d.toPane i j text
    return { d with toPane := p }

def splice (d : Document) (i j : Nat) (text : Text) : Option Document := change d i j text none none

def deleteAt (d : Document) (offset count : Nat) (before after : Option Selection) :
    Option Document :=
  change d offset (offset + count) [] before after

/-- Runs `work` as one recorded step, and flushes. -/
def transaction {α : Type} (work : Document → Option (Document × α)) (d : Document) :
    Option (Document × α) := do
  let opening := d.history.beginGroup
  let r ← work { d with recording := true, history := opening.2 }
  let closed :=
    if opening.1 then { r.1 with history := r.1.history.endGroup d.selection r.1.selection }
    else r.1
  let flushed ← flushAll { closed with recording := d.recording }
  return (flushed, r.2)

def perform (work : Document → Option Document) (d : Document) : Option Document := do
  let r ← transaction (fun d => (work d).map fun e => (e, ())) d
  return r.1

section
variable (d : Document)

@[simp] theorem select_eq (s : Selection) : select d s = some (d.select s) := by
  rw [select, selectPane_eq]
  rfl

@[simp] theorem setCaret_eq (offset : Nat) : setCaret d offset = some (d.setCaret offset) :=
  select_eq d (.point offset)

@[simp] theorem setAnchor_eq (offset : Nat) : setAnchor d offset = some (d.setAnchor offset) := by
  rw [setAnchor, maxOffset_eq]
  rfl

@[simp] theorem stretchTo_eq (offset : Nat) : stretchTo d offset = some (d.stretchTo offset) := by
  rw [stretchTo, maxOffset_eq]
  rfl

@[simp] theorem keepColumn_eq : keepColumn d = some d.keepColumn := by
  rw [keepColumn, position_eq]
  rfl

@[simp] theorem flushAll_eq : flushAll d = some d.flush := by
  rw [flushAll, flush_eq]
  rfl

@[simp] theorem change_eq (i j : Nat) (text : Text) (before after : Option Selection) :
    change d i j text before after = some (d.change i j text before after) := by
  rw [change, Document.change, slice_eq, replacePane_eq]
  split <;> rfl

@[simp] theorem splice_eq (i j : Nat) (text : Text) :
    splice d i j text = some (d.splice i j text) :=
  change_eq d i j text none none

@[simp] theorem deleteAt_eq (offset count : Nat) (before after : Option Selection) :
    deleteAt d offset count before after = some (d.deleteAt offset count before after) :=
  change_eq d offset (offset + count) [] before after

/-- A transaction has a value when its work always has one. -/
theorem transaction_eq {α : Type} {work : Document → Option (Document × α)}
    {plain : Document → Document × α} (h : ∀ e, work e = some (plain e)) :
    transaction work d = some (d.transaction plain) := by
  simp only [transaction, h, flushAll_eq, Option.bind_eq_bind, Option.bind_some,
    Document.transaction, Document.grouped]
  split <;> rfl

theorem perform_eq {work : Document → Option Document} {plain : Document → Document}
    (h : ∀ e, work e = some (plain e)) : perform work d = some (d.perform plain) := by
  have hwork : ∀ e, ((work e).map fun e => (e, ())) = some (plain e, ()) := by
    intro e
    rw [h e]
    rfl
  rw [perform, transaction_eq d hwork]
  rfl

end

/-! ## Undo and redo -/

def undo (d : Document) : Option Document := do
  let undone ←
    match d.history.undos with
    | [] => some d
    | s :: rest => do
      let p ← undoStep s d.toPane
      some { d with
        toPane := p
        history := { d.history with undos := rest, redos := s :: d.history.redos } }
  let flushed ← flushAll undone
  keepColumn flushed

def redo (d : Document) : Option Document := do
  let redone ←
    match d.history.redos with
    | [] => some d
    | s :: rest => do
      let p ← redoStep s d.toPane
      some { d with
        toPane := p
        history := { d.history with undos := s :: d.history.undos, redos := rest } }
  let flushed ← flushAll redone
  keepColumn flushed

theorem undo_eq (d : Document) : undo d = some d.undo := by
  rw [undo, Document.undo]
  cases d.history.undos with
  | nil => simp
  | cons s rest => simp [undoStep_eq]

theorem redo_eq (d : Document) : redo d = some d.redo := by
  rw [redo, Document.redo]
  cases d.history.redos with
  | nil => simp
  | cons s rest => simp [redoStep_eq]

/-! ## Typing -/

def deleteSelection (d : Document) : Option Document :=
  perform (fun d =>
    if d.selection.isEmpty then some d
    else do
      let start := d.selection.lower
      let count ← sub d.selection.upper start
      let d ← deleteAt d start count (some d.selection) (some (.point start))
      setCaret d start) d

/-- Puts `text` in the place of the selection and the caret after it. -/
def insert (d : Document) (text : Text) : Option Document :=
  let s := normalizeBreaks text
  perform (fun d => do
    let d ← if d.selection.isEmpty then some d else deleteSelection d
    let stop := d.caret + s.length
    let d ← change d d.caret d.caret (normalizeBreaks s) (some d.selection) (some (.point stop))
    let d ← setCaret d stop
    keepColumn d) d

def backspace (d : Document) : Option Document :=
  perform (fun d => do
    let d ←
      if d.selection.isEmpty = false then deleteSelection d
      else if 0 < d.caret then do
        let place ← sub d.caret 1
        let d ← deleteAt d place 1 (some (.point d.caret)) (some (.point place))
        setCaret d place
      else some d
    keepColumn d) d

def delete (d : Document) : Option Document :=
  perform (fun d => do
    let d ←
      if d.selection.isEmpty = false then deleteSelection d
      else do
        let limit ← maxOffset d.buffer
        if d.caret < limit then
          let caret := d.caret
          let d ← deleteAt d caret 1 (some (.point caret)) (some (.point caret))
          setCaret d caret
        else some d
    keepColumn d) d

def replaceAll (d : Document) (text : Text) : Option Document :=
  let s := normalizeBreaks text
  perform (fun d => do
    let limit ← maxOffset d.buffer
    let d ← splice d 0 limit s
    let d ← setCaret d s.length
    keepColumn d) d

section
variable (d : Document)

@[simp] theorem deleteSelection_eq : deleteSelection d = some d.deleteSelection := by
  refine perform_eq d fun e => ?_
  split
  · rfl
  · simp [sub_of_le e.selection.lower_le_upper]

@[simp] theorem insert_eq (text : Text) : insert d text = some (d.insert text) := by
  refine perform_eq d fun e => ?_
  split <;> simp [Document.insertAt]

@[simp] theorem backspace_eq : backspace d = some d.backspace := by
  refine perform_eq d fun e => ?_
  by_cases hempty : e.selection.isEmpty = false
  · simp [hempty]
  · by_cases hpos : 0 < e.caret
    · simp [hempty, hpos, sub_of_le (show 1 ≤ e.caret from hpos)]
    · simp [hempty, hpos]

@[simp] theorem delete_eq : delete d = some d.delete := by
  refine perform_eq d fun e => ?_
  by_cases hempty : e.selection.isEmpty = false
  · simp [hempty]
  · by_cases hlt : e.caret < e.buffer.maxOffset
    · simp [hempty, hlt, Document.maxOffset]
    · simp [hempty, hlt, Document.maxOffset]

@[simp] theorem replaceAll_eq (text : Text) : replaceAll d text = some (d.replaceAll text) :=
  perform_eq d fun e => by simp [Document.maxOffset]

end

/-! ## The caret -/

def moveTo (d : Document) (offset : Nat) (clear : Bool) : Option Document := do
  let d ← stretchTo d offset
  return if clear then { d with selection := .point d.caret } else d

def left (d : Document) (clear : Bool) : Option Document := do
  let d ←
    if clear = true ∧ d.selection.isEmpty = false then setCaret d d.selection.lower
    else moveTo d (d.caret - 1) clear
  keepColumn d

def right (d : Document) (clear : Bool) : Option Document := do
  let d ←
    if clear = true ∧ d.selection.isEmpty = false then setCaret d d.selection.upper
    else moveTo d (d.caret + 1) clear
  keepColumn d

def home (d : Document) (clear : Bool) : Option Document := do
  let p ← position d.buffer d.caret
  let start ← sub d.caret p.column
  let d ← moveTo d start clear
  keepColumn d

def toLineEnd (d : Document) (clear : Bool) : Option Document := do
  let p ← position d.buffer d.caret
  let l ← d.buffer.lines[p.row]?
  let start ← sub d.caret p.column
  let d ← moveTo d (start + l.length) clear
  keepColumn d

def toStart (d : Document) (clear : Bool) : Option Document := do
  let d ← moveTo d 0 clear
  keepColumn d

def toEnd (d : Document) (clear : Bool) : Option Document := do
  let limit ← maxOffset d.buffer
  let d ← moveTo d limit clear
  keepColumn d

def offsetInRow (d : Document) (row : Nat) : Option Nat := do
  let l ← d.buffer.lines[row]?
  return d.buffer.rowOffset row + min d.caretColumn l.length

def up (d : Document) (clear : Bool) : Option Document := do
  let p ← position d.buffer d.caret
  match p.row with
  | 0 => moveTo d 0 clear
  | above + 1 =>
    let offset ← offsetInRow d above
    moveTo d offset clear

def down (d : Document) (clear : Bool) : Option Document := do
  let p ← position d.buffer d.caret
  if p.row + 1 < d.buffer.lineCount then
    let offset ← offsetInRow d (p.row + 1)
    moveTo d offset clear
  else
    let limit ← maxOffset d.buffer
    moveTo d limit clear

def selectAll (d : Document) : Option Document := do
  let limit ← maxOffset d.buffer
  keepColumn { d with selection := ⟨0, limit⟩ }

/-- A column is not larger than its offset. -/
theorem column_position_le (b : Buffer) (n : Nat) : (b.position n).column ≤ n := by
  have := b.rowOffset_position n
  omega

section
variable (d : Document)

@[simp] theorem moveTo_eq (offset : Nat) (clear : Bool) :
    moveTo d offset clear = some (d.moveTo offset clear) := by
  rw [moveTo, stretchTo_eq]
  rfl

@[simp] theorem left_eq (clear : Bool) : left d clear = some (d.left clear) := by
  simp only [left, Document.left]
  split <;> simp

@[simp] theorem right_eq (clear : Bool) : right d clear = some (d.right clear) := by
  simp only [right, Document.right]
  split <;> simp

@[simp] theorem home_eq (clear : Bool) : home d clear = some (d.home clear) := by
  simp [home, Document.home, sub_of_le (column_position_le d.buffer d.caret)]

@[simp] theorem toLineEnd_eq (clear : Bool) : toLineEnd d clear = some (d.toLineEnd clear) := by
  obtain ⟨l, hl, -⟩ := d.buffer.exists_line_position d.caret
  simp [toLineEnd, Document.toLineEnd, sub_of_le (column_position_le d.buffer d.caret), hl,
    Buffer.lineLength, Buffer.lineText_eq hl, Line.length]

@[simp] theorem toStart_eq (clear : Bool) : toStart d clear = some (d.toStart clear) := by
  simp [toStart, Document.toStart]

@[simp] theorem toEnd_eq (clear : Bool) : toEnd d clear = some (d.toEnd clear) := by
  simp [toEnd, Document.toEnd, Document.maxOffset]

theorem offsetInRow_eq {row : Nat} (h : row < d.buffer.lineCount) :
    offsetInRow d row = some (d.offsetInRow row) := by
  have hl : d.buffer.lines[row]? = some _ := List.getElem?_eq_getElem h
  rw [offsetInRow, hl, Document.offsetInRow, Buffer.lineLength, Buffer.lineText_eq hl]
  rfl

@[simp] theorem up_eq (clear : Bool) : up d clear = some (d.up clear) := by
  have hlt := d.buffer.row_position_lt d.caret
  rw [up, position_eq, Document.up]
  simp only [Option.bind_eq_bind, Option.bind_some]
  cases hrow : (d.buffer.position d.caret).row with
  | zero => simp
  | succ above =>
    rw [hrow] at hlt
    simp [offsetInRow_eq d (Nat.lt_of_succ_lt hlt)]

@[simp] theorem down_eq (clear : Bool) : down d clear = some (d.down clear) := by
  rw [down, position_eq, Document.down]
  simp only [Option.bind_eq_bind, Option.bind_some]
  split
  · rename_i hlt
    simp [offsetInRow_eq d hlt]
  · simp [Document.maxOffset]

@[simp] theorem selectAll_eq : selectAll d = some d.selectAll := by
  simp [selectAll, Document.selectAll, Document.maxOffset]

end

end Checked
end StructEdit
