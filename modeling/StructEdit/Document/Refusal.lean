import StructEdit.Document.Basic

/-!
# Refused commands

Commands on lists make no sense inside a string. They refuse to run there and say
which command it was.
-/
namespace StructEdit

inductive Operation where
  | wrap
  | join
  | splice
  | killBackward
  | killForward
  deriving DecidableEq, Repr

/-- The name of the operation in messages. -/
def Operation.name : Operation → String
  | .wrap => "wrap_sexpr"
  | .join => "join_sexp"
  | .splice => "splice_sexp"
  | .killBackward => "kill_backward_list"
  | .killForward => "kill_forward_list"

/-- The operation was asked for inside a string. -/
structure Refusal where
  operation : Operation
  deriving DecidableEq, Repr

def Refusal.message (r : Refusal) : String := "invalid context for " ++ r.operation.name

/-- The document after a command, with what it gave or why it refused. -/
abbrev Outcome (α : Type) := Document × Except Refusal α

namespace Outcome

def done {α : Type} (d : Document) (a : α) : Outcome α := (d, .ok a)

def refused {α : Type} (d : Document) (o : Operation) : Outcome α := (d, .error ⟨o⟩)

/-- Goes on with what the first command gave, unless it refused. -/
def andThen {α β : Type} (o : Outcome α) (next : Document → α → Outcome β) : Outcome β :=
  match o with
  | (d, .ok a) => next d a
  | (d, .error r) => (d, .error r)

end Outcome
end StructEdit
