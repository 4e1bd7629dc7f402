import StructEdit.Buffer.Basic

/-!
# Cursors

A cursor stands on one token of a buffer. It holds the tokens before it, the
nearest first, and the tokens after it, each with its place in the buffer, so a
motion is a walk along two lists. The last token of every buffer is the end of
its last line: a cursor is at the end when nothing comes after it.
-/
namespace StructEdit

/-- A token with its place: the row, its index in the row, and the offset of its first character. -/
structure Placed where
  row : Nat
  index : Nat
  start : Nat
  token : Token
  deriving DecidableEq, Repr

namespace Placed

def kind (p : Placed) : Kind := p.token.kind

/-- The offset after its last character. -/
def stop (p : Placed) : Nat := p.start + p.token.length

end Placed

/-- Places the tokens of a row whose first character has offset `start`. -/
def placeTokens (row start index : Nat) : List Token → List Placed
  | [] => []
  | t :: ts => ⟨row, index, start + t.offset, t⟩ :: placeTokens row start (index + 1) ts

def placeLines (row start : Nat) : List Line → List Placed
  | [] => []
  | l :: ls => placeTokens row start 0 l.tokens ++ placeLines (row + 1) (start + (l.length + 1)) ls

theorem placeTokens_ne_nil (row start index : Nat) {ts : List Token} (h : ts ≠ []) :
    placeTokens row start index ts ≠ [] := by
  cases ts with
  | nil => exact absurd rfl h
  | cons _ _ => simp [placeTokens]

/-- All tokens of the buffer, in order. -/
def Buffer.placed (b : Buffer) : List Placed := placeLines 0 0 b.lines

theorem Buffer.placed_ne_nil (b : Buffer) : b.placed ≠ [] := by
  unfold Buffer.placed
  cases h : b.lines with
  | nil => exact absurd h b.lines_ne_nil
  | cons l ls => simp [placeLines, placeTokens_ne_nil, l.tokens_ne_nil]

structure Cursor where
  before : List Placed
  here : Placed
  after : List Placed
  deriving DecidableEq, Repr

/-- The kind of the nearest token before a place; the start of the buffer counts as a line end. -/
def kindBefore : List Placed → Kind
  | [] => .lineEnd
  | p :: _ => p.kind

namespace Cursor

def kind (c : Cursor) : Kind := c.here.kind

def raw (c : Cursor) : Text := c.here.token.raw

/-- The token before the cursor; at the start of the buffer, a line end. -/
def prevToken (c : Cursor) : Token :=
  match c.before with
  | [] => .lineEnd 0 .code
  | p :: _ => p.token

def prevKind (c : Cursor) : Kind := kindBefore c.before

def position (c : Cursor) : Position := ⟨c.here.row, c.here.token.offset⟩

/-- The offset of the first character of the token. -/
def start (c : Cursor) : Nat := c.here.start

/-- The offset after the token. The last line end has no room after it. -/
def stop (c : Cursor) : Nat :=
  if c.after.isEmpty then c.here.start else c.here.stop

def atStart (c : Cursor) : Bool := c.before.isEmpty

def atEnd (c : Cursor) : Bool := c.after.isEmpty

def next? (c : Cursor) : Option Cursor :=
  match c.after with
  | [] => none
  | n :: after => some ⟨c.here :: c.before, n, after⟩

def prev? (c : Cursor) : Option Cursor :=
  match c.before with
  | [] => none
  | p :: before => some ⟨before, p, c.here :: c.after⟩

/-- One token on; at the end the cursor stays. -/
def next (c : Cursor) : Cursor := c.next?.getD c

/-- One token back; at the start the cursor stays. -/
def prev (c : Cursor) : Cursor := c.prev?.getD c

/-- All tokens of the buffer that the cursor walks over. -/
def toList (c : Cursor) : List Placed := c.before.reverse ++ c.here :: c.after

/-- On a blank or the end of a line. -/
def onSpace (c : Cursor) : Bool := c.kind.isSpace

/-- On a part of a string, or on a line end inside one. -/
def withinString (c : Cursor) : Bool :=
  c.kind.isString ||
    (c.kind == .lineEnd && (c.prevKind == .stringMiddle || c.prevKind == .stringStart))

/-- The last token, from `here` on, that starts at or before the offset. -/
def seek (offset : Nat) (before : List Placed) (here : Placed) : List Placed → Cursor
  | [] => ⟨before, here, []⟩
  | n :: after =>
    if n.start ≤ offset then seek offset (here :: before) n after
    else ⟨before, here, n :: after⟩

theorem toList_next? {c d : Cursor} (h : c.next? = some d) : d.toList = c.toList := by
  obtain ⟨before, here, after⟩ := c
  cases after with
  | nil => simp [next?] at h
  | cons n after =>
    obtain rfl := Option.some.inj h
    simp [toList]

theorem toList_prev? {c d : Cursor} (h : c.prev? = some d) : d.toList = c.toList := by
  obtain ⟨before, here, after⟩ := c
  cases before with
  | nil => simp [prev?] at h
  | cons p before =>
    obtain rfl := Option.some.inj h
    simp [toList]

@[simp] theorem toList_seek (offset : Nat) (before : List Placed) (here : Placed)
    (after : List Placed) :
    (seek offset before here after).toList = before.reverse ++ here :: after := by
  induction after generalizing before here with
  | nil => rfl
  | cons n after ih =>
    simp only [seek]
    split
    · simp [ih]
    · rfl

end Cursor

namespace Buffer

/-- The cursor on the first token. -/
def firstCursor (b : Buffer) : Cursor :=
  match h : b.placed with
  | [] => absurd h b.placed_ne_nil
  | p :: ps => ⟨[], p, ps⟩

/-- The cursor on the token at an offset; past the end, on the last one. -/
def cursorAt (b : Buffer) (offset : Nat) : Cursor :=
  let c := b.firstCursor
  Cursor.seek offset c.before c.here c.after

/-- The cursor one token before the one at an offset, if that one is not the first of its row. -/
def cursorBefore (b : Buffer) (offset : Nat) : Cursor :=
  let c := b.cursorAt offset
  if c.here.index = 0 then c else c.prev

end Buffer
end StructEdit
