import StructEdit.Bracket
import StructEdit.Cursor.Enclosing

/-!
# The partner of a bracket

For a bracket under an offset, where it and its partner start, and whether the two
belong to one family.
-/
namespace StructEdit

structure BracketPair where
  opener : Option Nat
  closer : Option Nat
  /-- Both were found, and they are of one family. -/
  valid : Bool
  deriving DecidableEq, Repr

namespace BracketPair

def ofCursors (opener closer : Option Cursor) : BracketPair where
  opener := opener.map Cursor.start
  closer := closer.map Cursor.start
  valid :=
    match opener, closer with
    | some o, some c => Bracket.paired o.raw c.raw
    | _, _ => false

end BracketPair

/-- The bracket at an offset with its partner, `none` when there is no bracket. -/
def Buffer.bracketAt? (b : Buffer) (offset : Nat) : Option BracketPair :=
  let c := b.cursorAt offset
  match c.kind with
  | .closing => some (.ofCursors (c.backwardList?.map Cursor.prev) (some c))
  | .opening => some (.ofCursors (some c) c.next.forwardList?)
  | _ => none

end StructEdit
