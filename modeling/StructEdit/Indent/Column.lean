import StructEdit.Indent.Context
import StructEdit.Indent.Settings

/-!
# The column of a new line

The innermost list decides where a new line goes. Its own rules and the rules of
the lists around it are looked at from the inside out, and the last rule that has
something to say wins. Without one, the line goes under the second element when
an element stands on the line before, and under the first one otherwise.
-/
namespace StructEdit

/-- What a rule of the list `distance` levels out says about the innermost list. -/
def IndentRule.column? (this : IndentState) (distance : Nat) : IndentRule → Option Nat
  | .inner depth limit =>
    if depth = distance ∧ limit.all (this.argPosition < ·) then some (this.startColumn + 1)
    else none
  | .block args =>
    if distance ≠ 0 then none
    else if args < this.exprsOnLine then some this.firstItemColumn
    else if args ≤ this.argPosition then some (this.startColumn + 1)
    else none

/-- The column without any rule. -/
def IndentState.plainColumn (s : IndentState) : Nat :=
  if 0 < s.exprsOnLine then s.firstItemColumn else s.startColumn

/-- All that the rules of the states say about `this`; the states run from the inside out. -/
def ruleColumns (this : IndentState) (states : List IndentState) : List Nat :=
  states.zipIdx.flatMap fun (s, distance) => s.rules.filterMap (·.column? this distance)

/-- The column that the states ask for; the outermost one is first. -/
def indentColumn (states : List IndentState) : Nat :=
  match states.reverse with
  | [] => 0
  | this :: outer => (ruleColumns this (this :: outer)).getLast?.getD this.plainColumn

/-- The column for a new line at an offset. -/
def Buffer.indentAt (b : Buffer) (offset : Nat) (s : IndentSettings) : Nat :=
  indentColumn (b.indentStates offset s.maxDepth s.maxLines s.rules)

end StructEdit
