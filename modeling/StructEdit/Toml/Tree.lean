import StructEdit.Toml.Value

/-!
# Building TOML tables

A document names its tables piecemeal, and this module says what may be named when.
A header makes a table that no other header may make again. On its way it passes
through tables, which it makes where they are missing, and through the last table
of an array of tables. A dotted key makes tables too. They can be extended by dotted
keys only, and a dotted key cannot reach into a table that a header made. A plain
value, with all that is in it, is closed.
-/
namespace StructEdit.Toml

/-- How a table came to be. -/
inductive Origin where
  /-- By its own header. -/
  | header
  /-- On the way of a header to a table inside. -/
  | passage
  /-- By a dotted key. -/
  | dotted
  deriving DecidableEq, Repr

inductive Node where
  | leaf (v : Value)
  | table (origin : Origin) (entries : List (Text × Node))
  /-- An array of tables, the last one first. -/
  | tables (items : List (List (Text × Node)))

abbrev Entries := List (Text × Node)

/-- Changes the entry of a key, or makes it at the end; `f` gets the entry and may fail. -/
def alter? (key : Text) (f : Option Node → Option Node) : Entries → Option Entries
  | [] => (f none).map fun n => [(key, n)]
  | (k, n) :: es =>
    if k = key then (f (some n)).map fun m => (k, m) :: es
    else (alter? key f es).map ((k, n) :: ·)

/-- Changes the table at the end of a path with `f`. The flag says that a dotted key asks. -/
def descend? (dotted : Bool) (f : Origin → Entries → Option Entries) :
    List Text → Origin → Entries → Option Entries
  | [], origin, es => f origin es
  | k :: ks, _, es =>
    es |> alter? k fun
      | none =>
        let origin : Origin := if dotted then .dotted else .passage
        (descend? dotted f ks origin []).map (.table origin)
      | some (.table origin inner) =>
        if dotted = true ∧ origin = .header then none
        else (descend? dotted f ks origin inner).map (.table origin)
      | some (.tables (last :: rest)) =>
        (descend? dotted f ks .header last).map fun last => .tables (last :: rest)
      | some (.tables []) => none
      | some (.leaf _) => none

/-- Makes the table of a header. -/
def openTable? (path : List Text) (key : Text) : Entries → Option Entries :=
  descend? false (fun _ => alter? key fun
    | none => some (.table .header [])
    | some (.table .passage es) => some (.table .header es)
    | some _ => none) path .header

/-- Makes the next table of an array of tables. -/
def openItem? (path : List Text) (key : Text) : Entries → Option Entries :=
  descend? false (fun _ => alter? key fun
    | none => some (.tables [[]])
    | some (.tables items) => some (.tables ([] :: items))
    | some _ => none) path .header

/-- Sets a key that has no value yet. -/
def assign? (key : Text) (v : Value) : Entries → Option Entries :=
  alter? key fun
    | none => some (.leaf v)
    | some _ => none

/-- Sets a key behind a dotted path, in a table that dotted keys have made. -/
def assignDotted? (path : List Text) (key : Text) (v : Value) (es : Entries) : Option Entries :=
  if path.isEmpty then assign? key v es
  else
    descend? true (fun origin es => if origin = .dotted then assign? key v es else none)
      path .header es

/-- Sets a key in the table that the last header made. -/
def assignAt? (current path : List Text) (key : Text) (v : Value) : Entries → Option Entries :=
  descend? false (fun _ => assignDotted? path key v) current .header

mutual

def Node.value : Node → Value
  | .leaf v => v
  | .table _ es => .table (values es)
  | .tables items => .array (itemValues items).reverse

def values : List (Text × Node) → List (Text × Value)
  | [] => []
  | (k, n) :: es => (k, n.value) :: values es

def itemValues : List (List (Text × Node)) → List Value
  | [] => []
  | es :: items => .table (values es) :: itemValues items

end

/-- The table of the given assignments, each with its dotted path. -/
def inlineTable? (pairs : List (List Text × Text × Value)) : Option Value :=
  (pairs.foldlM (fun es (path, key, v) => assignDotted? path key v es) []).map
    fun es => .table (values es)

end StructEdit.Toml
