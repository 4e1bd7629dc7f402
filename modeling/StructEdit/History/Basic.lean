import StructEdit.History.Step

/-!
# Undo history

Two stacks of steps, the most recent one first, and at most one open group that
collects the steps until it is closed. A group inside a group joins the outer one.
-/
namespace StructEdit

structure History where
  undos : List Step
  redos : List Step
  /-- The steps of the open group, the most recent one first. -/
  group : Option (List Step)

namespace History

def empty : History := ⟨[], [], none⟩

/-- Puts a step on a stack, merged into the top where that is possible. -/
def push (steps : List Step) (s : Step) : List Step :=
  match steps with
  | [] => [s]
  | top :: rest =>
    if top.sealed then s :: top :: rest
    else
      match top.merge? s with
      | some m => m :: rest
      | none => s :: top :: rest

/-- Records a step, in the open group if there is one. Nothing can be redone any more. -/
def add (h : History) (s : Step) : History :=
  match h.group with
  | some steps => { h with group := some (push steps s), redos := [] }
  | none => { h with undos := push h.undos s, redos := [] }

/-- Opens a group, unless one is open; says whether it did. -/
def beginGroup (h : History) : Bool × History :=
  match h.group with
  | some _ => (false, h)
  | none => (true, { h with group := some [] })

/-- Closes the group and records it as one step. An empty group leaves nothing, and a group of one
step is that step. -/
def endGroup (h : History) (before after : Selection) : History :=
  match h.group with
  | none => h
  | some steps =>
    let closed := { h with group := none }
    match steps.reverse with
    | [] => closed
    | [s] => closed.add (s.withSelections before after)
    | ss => closed.add (.group ss ⟨some before, some after, false⟩)

/-- Seals the most recent step. -/
def sealTop (h : History) : History :=
  match h.undos with
  | [] => h
  | s :: ss => { h with undos := s.withSeal :: ss }

def canUndo (h : History) : Bool := !h.undos.isEmpty

def canRedo (h : History) : Bool := !h.redos.isEmpty

end History
end StructEdit
