import StructEdit.Pane

/-!
# Undo steps

An edit keeps the text it removed and the text it put in its place, so it can be
replayed in both directions. A group is a list of steps that is replayed as one.
Each step remembers the selections to restore, and whether it is sealed: a sealed
step takes in no later step.

Two edits merge when they are pieces of one run of typing, of deleting forwards or
of deleting backwards.
-/
namespace StructEdit

structure Edit where
  start : Nat
  inserted : Text
  deleted : Text
  deriving DecidableEq, Repr

namespace Edit

def apply (e : Edit) (p : Pane) : Pane :=
  p.replace e.start (e.start + e.deleted.length) e.inserted

def revert (e : Edit) (p : Pane) : Pane :=
  p.replace e.start (e.start + e.inserted.length) e.deleted

def isTyping (e : Edit) : Bool := e.deleted.isEmpty && !e.inserted.isEmpty

def isDeleting (e : Edit) : Bool := e.inserted.isEmpty && !e.deleted.isEmpty

/-- The two edits as one, if the second goes on where the first left off. -/
def merge? (e f : Edit) : Option Edit :=
  if e.isTyping ∧ f.isTyping ∧ e.start + e.inserted.length = f.start then
    some { e with inserted := e.inserted ++ f.inserted }
  else if e.isDeleting ∧ f.isDeleting ∧ e.start = f.start then
    some { e with deleted := e.deleted ++ f.deleted }
  else if e.isDeleting ∧ f.isDeleting ∧ f.start + f.deleted.length = e.start then
    some { e with start := f.start, deleted := f.deleted ++ e.deleted }
  else none

end Edit

structure Trace where
  /-- The selection to restore on undo. -/
  before : Option Selection
  /-- The selection to restore on redo. -/
  after : Option Selection
  sealed : Bool
  deriving DecidableEq, Repr

inductive Step where
  | edit (e : Edit) (trace : Trace)
  | group (steps : List Step) (trace : Trace)

namespace Step

def trace : Step → Trace
  | .edit _ t => t
  | .group _ t => t

def withTrace : Step → Trace → Step
  | .edit e _, t => .edit e t
  | .group ss _, t => .group ss t

def sealed (s : Step) : Bool := s.trace.sealed

def withSeal (s : Step) : Step := s.withTrace { s.trace with sealed := true }

/-- Replaces the selections that undo and redo restore. -/
def withSelections (s : Step) (before after : Selection) : Step :=
  s.withTrace { s.trace with before := some before, after := some after }

/-- The two steps as one. The result restores what the first did on undo and what the second did on
redo. Groups never merge. -/
def merge? : Step → Step → Option Step
  | .edit e t, .edit f u => (e.merge? f).map fun g => .edit g { t with after := u.after }
  | _, _ => none

mutual

def undo : Step → Pane → Pane
  | .edit e t, p => (e.revert p).selectAny t.before
  | .group ss t, p => (undoAll ss p).selectAny t.before

/-- Undoes the steps, the last one first. -/
def undoAll : List Step → Pane → Pane
  | [], p => p
  | s :: ss, p => s.undo (undoAll ss p)

end

mutual

def redo : Step → Pane → Pane
  | .edit e t, p => (e.apply p).selectAny t.after
  | .group ss t, p => (redoAll ss p).selectAny t.after

/-- Redoes the steps, the first one first. -/
def redoAll : List Step → Pane → Pane
  | [], p => p
  | s :: ss, p => redoAll ss (s.redo p)

end

end Step
end StructEdit
