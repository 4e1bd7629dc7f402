import StructEdit.Indent.Column
import StructEdit.Proofs.Checked.Documents
import StructEdit.Proofs.Checked.Motions

/-!
# Checked indentation

The walk out of the lists around a place, over addresses, and the column of a new line. The rules
are looked at by the position of their list among the states, with the number of the innermost one
as a difference, where the library counts how far out a list is.
-/
namespace StructEdit
namespace Checked
open Address

structure Walk where
  address : Address
  depth : Nat
  argPosition : Nat
  exprsOnLine : Nat
  lastRow : Nat
  lastIndent : Nat
  states : List IndentState

/-- Over the next expression, to the one after it. -/
def following (b : Buffer) (a : Address) : Option Address := do
  let r ← forwardSexp b true a
  forwardSpace b true r.2

/-- What is known of the list that starts in front of `a`. -/
def stateAt (b : Buffer) (table : RuleTable) (w : Walk) (a : Address) : Option IndentState := do
  let opener ← prevToken b a
  let head ← token b a
  let item ← following b a
  let last ← atEnd b item
  let second ← token b item
  return {
    first := some head.raw
    startColumn := head.offset
    firstItemColumn :=
      if head.kind = .symbol ∧ item.row = a.row ∧ last = false ∧ isCallOpener opener.raw then
        second.offset
      else head.offset
    rules := table.get head.raw
    argPosition := w.argPosition
    exprsOnLine := w.exprsOnLine }

/-- Goes back over one expression, or else out of the list, if there is one. -/
def back (b : Buffer) (table : RuleTable) (w : Walk) : Option (Option Walk) := do
  let r ← backSexp b false w.address
  if r.1 then return some { w with address := r.2 }
  else
    let opener ← prevToken b r.2
    let state ← stateAt b table w r.2
    let outside ← backwardUpList b r.2
    return outside.map fun o =>
      { w with
        address := o
        depth := if opener.kind = .opening ∧ opener.offset ≤ 1 then 0 else w.depth
        argPosition := 0
        exprsOnLine := 1
        states := state :: w.states }

def countLine (b : Buffer) (w : Walk) : Option Walk :=
  if w.address.row ≠ w.lastRow then do
    let item ← following b w.address
    let last ← atEnd b item
    let t ← token b item
    return if last then w
      else { w with lastIndent := t.offset, exprsOnLine := 0, lastRow := w.address.row }
  else some w

def countExpr (b : Buffer) (w : Walk) : Option Walk := do
  let t ← prevToken b w.address
  return if t.kind.isSkipped true then
    { w with argPosition := w.argPosition + 1, exprsOnLine := w.exprsOnLine + 1 }
  else w

def isOver (w : Walk) (startRow maxLines : Nat) : Bool :=
  atStart w.address || decide (maxLines ≤ startRow - w.address.row) ||
    decide (w.depth ≤ w.states.length)

/-- Walks until it is over. -/
def Walk.walk (b : Buffer) (table : RuleTable) (startRow maxLines : Nat) (w : Walk) :
    Option Walk := do
  match ← back b table w with
  | none => return w
  | some outer =>
    let outer ← countLine b outer
    let outer ← countExpr b outer
    if isOver outer startRow maxLines then return outer
    else outer |>.walk b table startRow maxLines
partial_fixpoint

def indentStates (b : Buffer) (offset maxDepth maxLines : Nat) (table : RuleTable) :
    Option (List IndentState) := do
  let a ← cursorAt b offset
  let a ← backwardSpace b true a
  let w ← Walk.walk b table a.row maxLines ⟨a, maxDepth, 0, 0, a.row, 0, []⟩
  return if w.states.isEmpty then [.margin w.lastIndent] else w.states

/-- What a rule of the list at `position` says about the innermost list. -/
def ruleColumn? (this : IndentState) (position innermost : Nat) : IndentRule → Option Nat
  | .inner depth limit =>
    if position + depth = innermost ∧ limit.all (this.argPosition < ·) then
      some (this.startColumn + 1)
    else none
  | .block args =>
    if position ≠ innermost then none
    else if args < this.exprsOnLine then some this.firstItemColumn
    else if args ≤ this.argPosition then some (this.startColumn + 1)
    else none

/-- The column that the states ask for; the outermost one is first. -/
def indentColumn (states : List IndentState) : Option Nat :=
  match states.getLast? with
  | none => some 0
  | some this => do
    let innermost ← sub states.length 1
    let columns := states.zipIdx.reverse.flatMap fun (s, position) =>
      s.rules.filterMap (ruleColumn? this position innermost)
    return columns.getLast?.getD this.plainColumn

def indentAt (b : Buffer) (offset : Nat) (s : IndentSettings) : Option Nat := do
  let states ← indentStates b offset s.maxDepth s.maxLines s.rules
  indentColumn states

/-- Breaks the line at the caret and indents the new one. -/
def newline (d : Document) : Option Document := do
  let column ← indentAt d.buffer d.caret d.indent
  insert d.sealHistory ('\n' :: List.replicate column ' ')

/-! ## The walk -/

/-- A walk of the library, with the address of its cursor. -/
def ofWalk (w : IndentWalk) : Walk :=
  ⟨w.cursor.address, w.depth, w.argPosition, w.exprsOnLine, w.lastRow, w.lastIndent, w.states⟩

variable {b : Buffer} {c : Cursor} {w : IndentWalk}

theorem following_eq (h : c.In b) :
    following b c.address = some c.following.address ∧ c.following.In b := by
  refine ⟨?_, (h.forwardSexp true).forwardSpace true⟩
  rw [following, forwardSexp_eq h (Or.inl rfl), Option.bind_eq_bind, Option.bind_some]
  exact forwardSpace_eq (h.forwardSexp true) true

theorem stateAt_eq (h : c.In b) (table : RuleTable) (w : IndentWalk) :
    stateAt b table (ofWalk w) c.address = some (w.stateAt table c) := by
  obtain ⟨hitem, hin⟩ := following_eq h
  simp only [stateAt, prevToken_eq h, token_eq h, hitem, atEnd_eq hin, token_eq hin,
    Option.bind_eq_bind, Option.bind_some]
  rfl

theorem back_eq (h : w.cursor.In b) (table : RuleTable) :
    back b table (ofWalk w) = some ((w.back? table).map ofWalk) := by
  have hin := h.backwardSexp false
  have hback : backSexp b false (ofWalk w).address =
      some (arrival (w.cursor.backwardSexp false)) := backSexp_eq h (Or.inl rfl)
  have hstate := stateAt_eq hin table w
  simp only [back, hback, Option.bind_eq_bind, Option.bind_some, IndentWalk.back?, arrival,
    prevToken_eq hin, hstate, backwardUpList_eq hin, Cursor.kind_prevToken]
  split
  · rfl
  · cases (w.cursor.backwardSexp false).cursor.backwardUpList? with
    | none => rfl
    | some outside => rfl

theorem countLine_eq (h : w.cursor.In b) : countLine b (ofWalk w) = some (ofWalk w.countLine) := by
  obtain ⟨hitem, hin⟩ := following_eq h
  have hrow : (ofWalk w).address = w.cursor.address := rfl
  simp only [countLine, IndentWalk.countLine, hrow, hitem, atEnd_eq hin, token_eq hin,
    Option.bind_eq_bind, Option.bind_some]
  by_cases hnew : w.cursor.here.row = w.lastRow
  · simp [ofWalk, Cursor.address, hnew]
  · cases hlast : w.cursor.following.atEnd with
    | true => simp [ofWalk, Cursor.address, hnew]
    | false => simp [ofWalk, Cursor.address, hnew, Cursor.position]

theorem countExpr_eq (h : w.cursor.In b) : countExpr b (ofWalk w) = some (ofWalk w.countExpr) := by
  have hprev : prevToken b (ofWalk w).address = some w.cursor.prevToken := prevToken_eq h
  simp only [countExpr, hprev, Option.bind_eq_bind, Option.bind_some, IndentWalk.countExpr,
    Cursor.kind_prevToken]
  split <;> rfl

theorem isOver_eq (h : w.cursor.In b) (startRow maxLines : Nat) :
    isOver (ofWalk w) startRow maxLines = w.isOver startRow maxLines := by
  rw [isOver, IndentWalk.isOver, ← atStart_eq h]
  rfl

theorem back?_in {w' : IndentWalk} {table : RuleTable} (h : w.cursor.In b)
    (hback : w.back? table = some w') : w'.cursor.In b := by
  simp only [IndentWalk.back?] at hback
  split at hback
  · obtain rfl := Option.some.inj hback
    exact h.backwardSexp false
  · obtain ⟨outside, houtside, rfl⟩ := Option.map_eq_some_iff.1 hback
    exact (h.backwardSexp false).backwardUpList? houtside

/-- One turn of the walk. -/
theorem walk_step {w' : IndentWalk} {table : RuleTable} (h : w.cursor.In b)
    (hback : w.back? table = some w') (startRow maxLines : Nat) :
    Walk.walk b table startRow maxLines (ofWalk w) =
      if w'.countLine.countExpr.isOver startRow maxLines then some (ofWalk w'.countLine.countExpr)
      else Walk.walk b table startRow maxLines (ofWalk w'.countLine.countExpr) := by
  have hin := back?_in h hback
  have hline : w'.countLine.cursor.In b := by rwa [IndentWalk.cursor_countLine]
  have hexpr : w'.countLine.countExpr.cursor.In b := by rwa [IndentWalk.cursor_countExpr]
  rw [Walk.walk, back_eq h, hback, ← isOver_eq hexpr]
  simp only [Option.map_some, Option.bind_eq_bind, Option.bind_some, countLine_eq hin,
    countExpr_eq hline]
  rfl

theorem walk_eq (h : w.cursor.In b) (table : RuleTable) (startRow maxLines : Nat) :
    Walk.walk b table startRow maxLines (ofWalk w) =
      some (ofWalk (w.run table startRow maxLines)) := by
  fun_induction IndentWalk.run table startRow maxLines w with
  | case1 w hnone =>
    rw [Walk.walk, back_eq h, hnone]
    rfl
  | case2 w w' hback hlt next hover =>
    rw [walk_step h hback]
    exact if_pos hover
  | case3 w w' hback hlt next hover ih =>
    have hin : next.cursor.In b := by
      rw [IndentWalk.cursor_countExpr, IndentWalk.cursor_countLine]
      exact back?_in h hback
    rw [walk_step h hback, ← ih hin]
    exact if_neg hover

theorem indentStates_eq (b : Buffer) (offset maxDepth maxLines : Nat) (table : RuleTable) :
    indentStates b offset maxDepth maxLines table =
      some (b.indentStates offset maxDepth maxLines table) := by
  have hin := (b.in_cursorAt offset).backwardSpace true
  have hwalk := walk_eq (w := IndentWalk.new ((b.cursorAt offset).backwardSpace true) maxDepth) hin
    table ((b.cursorAt offset).backwardSpace true).here.row maxLines
  simp only [indentStates, cursorAt_eq, backwardSpace_eq (b.in_cursorAt offset),
    Option.bind_eq_bind, Option.bind_some]
  exact congrArg (Option.bind · _) hwalk

/-! ## The column -/

/-- The lists by position from the last on are the lists by distance from the first on, when these
are turned around. -/
theorem flatMap_zipIdx_reverse {α : Type} (f : α → Nat → List Nat) (xs : List α) (k : Nat) :
    (xs.reverse.zipIdx.reverse.flatMap fun (x, position) => f x position) =
      (xs.zipIdx k).flatMap fun (x, distance) => f x (xs.length + k - 1 - distance) := by
  induction xs generalizing k with
  | nil => rfl
  | cons x xs ih =>
    have hplace : (x :: xs).length + k - 1 = xs.length + (k + 1) - 1 := by
      simp only [List.length_cons]
      omega
    rw [List.reverse_cons, List.zipIdx_append, List.reverse_append, List.flatMap_append, ih (k + 1),
      hplace]
    simp [List.zipIdx_cons]

theorem ruleColumn?_eq (this : IndentState) {distance innermost : Nat} (h : distance ≤ innermost)
    (r : IndentRule) :
    ruleColumn? this (innermost - distance) innermost r = r.column? this distance := by
  cases r with
  | inner depth limit =>
    have hdepth : innermost - distance + depth = innermost ↔ depth = distance := by omega
    simp only [ruleColumn?, IndentRule.column?, hdepth]
  | block args =>
    have hinner : innermost - distance = innermost ↔ distance = 0 := by omega
    simp only [ruleColumn?, IndentRule.column?, ne_eq, hinner]

theorem indentColumn_eq (states : List IndentState) :
    indentColumn states = some (StructEdit.indentColumn states) := by
  rw [indentColumn, StructEdit.indentColumn, ← List.head?_reverse]
  cases hrev : states.reverse with
  | nil => rfl
  | cons this outer =>
    have hstates : states = (this :: outer).reverse := by rw [← hrev, List.reverse_reverse]
    have hpos : 1 ≤ states.length := by simp [hstates]
    have hlast : (this :: outer).length + 0 - 1 = states.length - 1 := by simp [hstates]
    have hcolumns : (states.zipIdx.reverse.flatMap fun (s, position) =>
        s.rules.filterMap (ruleColumn? this position (states.length - 1))) =
        ruleColumns this (this :: outer) := by
      have hturn := flatMap_zipIdx_reverse (fun (s : IndentState) position =>
        s.rules.filterMap (ruleColumn? this position (states.length - 1))) (this :: outer) 0
      rw [← hstates, hlast] at hturn
      refine hturn.trans ?_
      rw [ruleColumns, List.flatMap_def, List.flatMap_def]
      congr 1
      refine List.map_congr_left fun ⟨s, distance⟩ hmem => ?_
      have hlt : distance ≤ states.length - 1 := by
        have := (List.mem_zipIdx hmem).2.1
        omega
      exact congrArg (s.rules.filterMap ·) (funext fun r => ruleColumn?_eq this hlt r)
    simp only [List.head?_cons, sub_of_le hpos, Option.bind_eq_bind, Option.bind_some, hcolumns]
    rfl

theorem indentAt_eq (b : Buffer) (offset : Nat) (s : IndentSettings) :
    indentAt b offset s = some (b.indentAt offset s) := by
  rw [indentAt, indentStates_eq, Option.bind_eq_bind, Option.bind_some, indentColumn_eq]
  rfl

@[simp] theorem newline_eq (d : Document) : newline d = some d.newline := by
  rw [newline, indentAt_eq, Option.bind_eq_bind, Option.bind_some, insert_eq]
  rfl

end Checked
end StructEdit
