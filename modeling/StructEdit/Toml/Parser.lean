import StructEdit.Toml.Scalar
import StructEdit.Toml.Tree

/-!
# Reading TOML

A document is a sequence of statements, one a line: headers of tables, headers of
arrays of tables, and assignments. Arrays and inline tables may run over several lines,
with comments, and end in a comma. Line breaks are `\n` or `\r\n`, and a comment runs
to the end of its line.

Reading is bounded by the length of the text, because every statement and every
value takes at least one character.
-/
namespace StructEdit.Toml

def skipBlanks (s : Text) : Text := s.dropWhile fun c => c = ' ' || c = '\t'

/-- Skips blanks, line breaks and comments; the flag says that a comment is open. -/
def skipFiller : Bool → Text → Text
  | _, '\n' :: s => skipFiller false s
  | _, '\r' :: '\n' :: s => skipFiller false s
  | false, ' ' :: s => skipFiller false s
  | false, '\t' :: s => skipFiller false s
  | false, '#' :: s => skipFiller true s
  | true, c :: s => if isPlain c then skipFiller true s else c :: s
  | _, s => s

/-- Nothing but a comment follows on the line. -/
def atLineEnd : Text → Bool
  | [] => true
  | '\n' :: _ => true
  | '\r' :: '\n' :: _ => true
  | '#' :: _ => true
  | _ => false

/-- A key with its dotted path in front, and what follows. The bound is on the number of parts. -/
def dottedKey? : Nat → Text → Option ((List Text × Text) × Text)
  | 0, _ => none
  | bound + 1, s => do
    let (k, s) ← key? s
    match skipBlanks s with
    | '.' :: s =>
      let ((path, key), s) ← dottedKey? bound (skipBlanks s)
      return ((k :: path, key), s)
    | s => return (([], k), s)

/-- How many parts a key may have, and how deep arrays and inline tables may be nested. -/
def maxDepth : Nat := 80

mutual

/-- A value that may hold `depth` levels of arrays and inline tables. -/
def value? : (fuel depth : Nat) → Text → Option (Value × Text)
  | 0, _, _ => none
  | _ + 1, _, '"' :: s => (basicString? s).map fun (t, r) => (.text t, r)
  | _ + 1, _, '\'' :: s => (literalString? s).map fun (t, r) => (.text t, r)
  | _ + 1, 0, '[' :: _ => none
  | fuel + 1, depth + 1, '[' :: s =>
    (items? fuel depth (skipFiller false s)).map fun (vs, r) => (.array vs, r)
  | _ + 1, 0, '\x7b' :: _ => none
  | fuel + 1, depth + 1, '\x7b' :: s => do
    let (pairs, s) ← pairs? fuel depth (skipFiller false s)
    return (← inlineTable? pairs, s)
  | _ + 1, _, s => (word? (s.takeWhile isScalarChar)).map fun v => (v, s.dropWhile isScalarChar)

/-- The items of an array up to its closing bracket. -/
def items? : (fuel depth : Nat) → Text → Option (List Value × Text)
  | 0, _, _ => none
  | _ + 1, _, ']' :: s => some ([], s)
  | fuel + 1, depth, s => do
    let (v, s) ← value? fuel depth s
    match skipFiller false s with
    | ']' :: s => return ([v], s)
    | ',' :: s =>
      let (vs, s) ← items? fuel depth (skipFiller false s)
      return (v :: vs, s)
    | _ => none

/-- The assignments of an inline table up to its closing brace. -/
def pairs? : (fuel depth : Nat) → Text → Option (List (List Text × Text × Value) × Text)
  | 0, _, _ => none
  | _ + 1, _, '\x7d' :: s => some ([], s)
  | fuel + 1, depth, s => do
    let ((path, key), s) ← dottedKey? maxDepth s
    match skipFiller false s with
    | '=' :: s =>
      let (v, s) ← value? fuel depth (skipFiller false s)
      match skipFiller false s with
      | '\x7d' :: s => return ([(path, key, v)], s)
      | ',' :: s =>
        let (rest, s) ← pairs? fuel depth (skipFiller false s)
        return ((path, key, v) :: rest, s)
      | _ => none
    | _ => none

end

inductive Statement where
  | table (path : List Text) (key : Text)
  | item (path : List Text) (key : Text)
  | assign (path : List Text) (key : Text) (v : Value)

def statement? (fuel : Nat) : Text → Option (Statement × Text)
  | '[' :: '[' :: s => do
    let ((path, key), s) ← dottedKey? maxDepth (skipBlanks s)
    match skipBlanks s with
    | ']' :: ']' :: s => return (.item path key, s)
    | _ => none
  | '[' :: s => do
    let ((path, key), s) ← dottedKey? maxDepth (skipBlanks s)
    match skipBlanks s with
    | ']' :: s => return (.table path key, s)
    | _ => none
  | s => do
    let ((path, key), s) ← dottedKey? maxDepth s
    match skipBlanks s with
    | '=' :: s =>
      let (v, s) ← value? fuel maxDepth (skipBlanks s)
      return (.assign path key v, s)
    | _ => none

def statements? : Nat → Text → Option (List Statement)
  | 0, _ => none
  | fuel + 1, s =>
    match skipFiller false s with
    | [] => some []
    | s => do
      let (st, s) ← statement? fuel s
      let s := skipBlanks s
      if atLineEnd s then
        let rest ← statements? fuel s
        return st :: rest
      else none

/-- Carries out the statements; `current` is the table that the last header made. -/
def build? (current : List Text) (es : Entries) : List Statement → Option Entries
  | [] => some es
  | .table path key :: sts => (openTable? path key es).bind (build? (path ++ [key]) · sts)
  | .item path key :: sts => (openItem? path key es).bind (build? (path ++ [key]) · sts)
  | .assign path key v :: sts => (assignAt? current path key v es).bind (build? current · sts)

/-- The entries of the document, or `none` when it is malformed. A byte order mark in front is
skipped. -/
def parse? (s : Text) : Option (List (Text × Value)) := do
  let s := if s.head? = some '\uFEFF' then s.drop 1 else s
  let sts ← statements? (s.length + 2) s
  let es ← build? [] [] sts
  return values es

end StructEdit.Toml
