/-!
# Line-level bookkeeping

What happened to the lines of a buffer since somebody last asked: the rows that
changed, in ascending order, and the runs of rows that were inserted and deleted,
in the order in which that happened.

When rows are inserted or deleted, every row noted so far has to follow. A
`RowShift` says where each old row goes; a row that is gone goes nowhere.
-/
namespace StructEdit

/-- At row `start`, `removed` rows give way to `added` new ones. -/
structure RowShift where
  start : Nat
  removed : Nat
  added : Nat
  deriving DecidableEq, Repr

namespace RowShift

/-- The new place of a row, `none` when it was removed. -/
def row? (σ : RowShift) (row : Nat) : Option Nat :=
  if row < σ.start then some row
  else if row < σ.start + σ.removed then none
  else some (row - σ.removed + σ.added)

end RowShift

structure Run where
  first : Nat
  count : Nat
  deriving DecidableEq, Repr

def Run.shift? (σ : RowShift) (r : Run) : Option Run :=
  (σ.row? r.first).map fun first => { r with first }

/-- Puts a row into an ascending list of rows, once. -/
def insertRow (row : Nat) : List Nat → List Nat
  | [] => [row]
  | r :: rs =>
    if row < r then row :: r :: rs
    else if row = r then r :: rs
    else r :: insertRow row rs

structure Changes where
  changed : List Nat
  inserted : List Run
  deleted : List Run
  deriving DecidableEq, Repr

namespace Changes

def none : Changes := ⟨[], [], []⟩

def isEmpty (c : Changes) : Bool :=
  c.changed.isEmpty && c.inserted.isEmpty && c.deleted.isEmpty

/-- Notes that the rows changed. -/
def mark (c : Changes) (rows : List Nat) : Changes :=
  { c with changed := rows.foldl (fun rs r => insertRow r rs) c.changed }

def shift (σ : RowShift) (c : Changes) : Changes :=
  ⟨c.changed.filterMap σ.row?, c.inserted.filterMap (Run.shift? σ),
   c.deleted.filterMap (Run.shift? σ)⟩

/-- Notes that `count` rows were inserted at row `first`. -/
def insertRun (c : Changes) (first count : Nat) : Changes :=
  if count = 0 then c else { c with inserted := c.inserted ++ [⟨first, count⟩] }

/-- Notes that `count` rows were deleted at row `first`. -/
def deleteRun (c : Changes) (first count : Nat) : Changes :=
  if count = 0 then c else { c with deleted := c.deleted ++ [⟨first, count⟩] }

end Changes
end StructEdit
