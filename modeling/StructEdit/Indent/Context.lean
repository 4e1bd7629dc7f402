import StructEdit.Cursor.Enclosing
import StructEdit.Indent.Rule

/-!
# The lists around a place

To indent a new line, the lists that enclose its place are looked at from the
inside out. A walk goes back over expressions. At the start of a list it notes
what it has learned about that list and steps out of it. The walk ends at the
start of the buffer, after a given number of lists or lines, and at a list that
opens at the margin. When no list encloses the place, the indentation of the line
before it takes the place of a list.

Every step of a walk goes back by at least one token, which is why it ends.
-/
namespace StructEdit

structure IndentState where
  /-- The text of its first element; `none` where there is no list. -/
  first : Option Text
  /-- The column of the first element. -/
  startColumn : Nat
  /-- The column of the second element when that stands on the same line behind a symbol, and of
  the first one otherwise. -/
  firstItemColumn : Nat
  rules : List IndentRule
  /-- How many elements come before the place. -/
  argPosition : Nat
  /-- How many of them stand on the last line. -/
  exprsOnLine : Nat
  deriving DecidableEq, Repr

namespace IndentState

/-- The state of a place that no list encloses. -/
def margin (column : Nat) : IndentState := ⟨none, column, column, [], 0, 0⟩

end IndentState

/-- An opener of lists whose first element is called. -/
def isCallOpener : Text → Bool
  | ['('] | ['#', '('] | ['#', '?', '('] | ['#', '?', '@', '('] => true
  | _ => false

/-- Over the next expression, to the one after it. -/
def Cursor.following (c : Cursor) : Cursor :=
  (c.forwardSexp true).cursor.forwardSpace true

structure IndentWalk where
  cursor : Cursor
  /-- How many lists to note at most. -/
  depth : Nat
  argPosition : Nat
  exprsOnLine : Nat
  lastRow : Nat
  lastIndent : Nat
  /-- The outermost list first. -/
  states : List IndentState

namespace IndentWalk

/-- What is known of the list that starts in front of `c`. -/
def stateAt (table : RuleTable) (w : IndentWalk) (c : Cursor) : IndentState where
  first := some c.raw
  startColumn := c.position.column
  firstItemColumn :=
    let item := c.following
    if c.kind = .symbol ∧ item.here.row = c.here.row ∧ item.atEnd = false ∧
        isCallOpener c.prevToken.raw then
      item.position.column
    else c.position.column
  rules := table.get c.raw
  argPosition := w.argPosition
  exprsOnLine := w.exprsOnLine

/-- Goes back over one expression, or else out of the list. It fails where there is no list. -/
def back? (table : RuleTable) (w : IndentWalk) : Option IndentWalk :=
  let r := w.cursor.backwardSexp false
  if r.found then some { w with cursor := r.cursor }
  else
    r.cursor.backwardUpList?.map fun outside =>
      let atMargin := r.cursor.prevKind = .opening ∧ r.cursor.prevToken.offset ≤ 1
      { w with
        cursor := outside
        depth := if atMargin then 0 else w.depth
        argPosition := 0
        exprsOnLine := 1
        states := w.stateAt table r.cursor :: w.states }

/-- Starts to count anew where the walk has come to another line. -/
def countLine (w : IndentWalk) : IndentWalk :=
  let item := w.cursor.following
  if w.cursor.here.row ≠ w.lastRow ∧ item.atEnd = false then
    { w with lastIndent := item.position.column, exprsOnLine := 0, lastRow := w.cursor.here.row }
  else w

/-- Counts the expression at the cursor, unless it is glued to what stands before it. -/
def countExpr (w : IndentWalk) : IndentWalk :=
  if w.cursor.prevKind.isSkipped true then
    { w with argPosition := w.argPosition + 1, exprsOnLine := w.exprsOnLine + 1 }
  else w

def isOver (w : IndentWalk) (startRow maxLines : Nat) : Bool :=
  w.cursor.atStart || decide (maxLines ≤ startRow - w.cursor.here.row) ||
    decide (w.depth ≤ w.states.length)

@[simp] theorem cursor_countExpr (w : IndentWalk) : w.countExpr.cursor = w.cursor := by
  unfold countExpr
  split <;> rfl

@[simp] theorem cursor_countLine (w : IndentWalk) : w.countLine.cursor = w.cursor := by
  simp only [countLine]
  split <;> rfl

@[simp] theorem depth_countExpr (w : IndentWalk) : w.countExpr.depth = w.depth := by
  unfold countExpr
  split <;> rfl

@[simp] theorem depth_countLine (w : IndentWalk) : w.countLine.depth = w.depth := by
  simp only [countLine]
  split <;> rfl

@[simp] theorem states_countExpr (w : IndentWalk) : w.countExpr.states = w.states := by
  unfold countExpr
  split <;> rfl

@[simp] theorem states_countLine (w : IndentWalk) : w.countLine.states = w.states := by
  simp only [countLine]
  split <;> rfl

theorem back?_lt {table : RuleTable} {w w' : IndentWalk} (h : w.back? table = some w') :
    w'.cursor.before.length < w.cursor.before.length := by
  simp only [back?] at h
  split at h
  · rename_i hf
    obtain rfl := Option.some.inj h
    exact Cursor.backwardSexp_found_lt hf
  · obtain ⟨outside, ho, rfl⟩ := Option.map_eq_some_iff.1 h
    exact Nat.lt_of_lt_of_le (Cursor.backwardUpList?_lt ho) (Cursor.before_backwardSexp_le _ _)

/-- Walks until it is over. -/
def run (table : RuleTable) (startRow maxLines : Nat) (w : IndentWalk) : IndentWalk :=
  match h : w.back? table with
  | none => w
  | some w' =>
    have := back?_lt h
    let next := w'.countLine.countExpr
    if next.isOver startRow maxLines then next else run table startRow maxLines next
termination_by w.cursor.before.length

/-- The start of a walk. -/
def new (c : Cursor) (maxDepth : Nat) : IndentWalk :=
  ⟨c, maxDepth, 0, 0, c.here.row, 0, []⟩

end IndentWalk

/-- The lists around an offset, the outermost first, and at least one state. -/
def Buffer.indentStates (b : Buffer) (offset maxDepth maxLines : Nat) (table : RuleTable) :
    List IndentState :=
  let c := (b.cursorAt offset).backwardSpace true
  let w := (IndentWalk.new c maxDepth).run table c.here.row maxLines
  if w.states.isEmpty then [.margin w.lastIndent] else w.states

end StructEdit
