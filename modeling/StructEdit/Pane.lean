import StructEdit.Buffer.Flush
import StructEdit.Selection

/-!
# A buffer with a selection

The part of a document that undo and redo bring back. Selecting holds both ends
inside the buffer; editing leaves the selection where it is.
-/
namespace StructEdit

structure Pane where
  buffer : Buffer
  selection : Selection

namespace Pane

/-- Selects, with both ends held inside the buffer. -/
def select (p : Pane) (s : Selection) : Pane :=
  { p with selection := s.clamp p.buffer.maxOffset }

/-- Selects if there is something to select. -/
def selectAny (p : Pane) : Option Selection → Pane
  | none => p
  | some s => p.select s

def replace (p : Pane) (i j : Nat) (text : Text) : Pane :=
  { p with buffer := p.buffer.replace i j text }

@[simp] theorem buffer_selectAny (p : Pane) (s : Option Selection) :
    (p.selectAny s).buffer = p.buffer := by
  cases s <;> rfl

end Pane
end StructEdit
