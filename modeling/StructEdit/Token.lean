import StructEdit.Text.Basic

/-!
# Tokens of a line

The lexical kinds of Clojure code, the reading mode that one line hands to the
next, and the token itself. A token lies on one line, and its offset is the
column where it starts.
-/
namespace StructEdit

inductive Kind where
  /-- Blank characters and commas. -/
  | blank
  /-- From a `;` to the end of the line. -/
  | comment
  /-- An opening bracket, alone or after a dispatch mark as in `#(`. -/
  | opening
  | closing
  /-- Quote, unquote, metadata and dispatch marks. -/
  | mark
  /-- A number, `true`, `false` or `nil`. -/
  | literal
  | keyword
  | symbol
  /-- A string that starts and ends on the line. -/
  | string
  /-- The first part of a string that goes on in the next line. -/
  | stringStart
  /-- A whole line, or the rest of one, inside such a string. -/
  | stringMiddle
  /-- The last part of such a string. -/
  | stringEnd
  /-- What no other kind accepts. -/
  | junk
  /-- The end of the line. -/
  | lineEnd
  deriving DecidableEq, Repr

namespace Kind

def all : List Kind :=
  [.blank, .comment, .opening, .closing, .mark, .literal, .keyword, .symbol, .string,
   .stringStart, .stringMiddle, .stringEnd, .junk, .lineEnd]

/-- The short name of the kind. -/
def label : Kind → String
  | .blank => "ws"
  | .comment => "comment"
  | .opening => "open"
  | .closing => "close"
  | .mark => "punc"
  | .literal => "lit"
  | .keyword => "kw"
  | .symbol => "id"
  | .string => "str"
  | .stringStart => "str-start"
  | .stringMiddle => "str-inside"
  | .stringEnd => "str-end"
  | .junk => "junk"
  | .lineEnd => "eol"

def ofLabel? (s : String) : Option Kind :=
  all.find? (·.label == s)

def isSpace : Kind → Bool
  | .blank | .lineEnd => true
  | _ => false

/-- Any part of a string literal. -/
def isString : Kind → Bool
  | .string | .stringStart | .stringMiddle | .stringEnd => true
  | _ => false

end Kind

/-- What a line starts in: code, or the inside of a string opened on an earlier line. -/
inductive Mode where
  | code
  | string
  deriving DecidableEq, Repr

namespace Mode

def inString : Mode → Bool
  | .code => false
  | .string => true

/-- The mode after a token of the given kind. -/
def after (m : Mode) : Kind → Mode
  | .stringStart => .string
  | .stringEnd => .code
  | _ => m

end Mode

structure Token where
  kind : Kind
  raw : Text
  offset : Nat
  /-- The mode right after it. -/
  mode : Mode
  deriving DecidableEq, Repr

namespace Token

def length (t : Token) : Nat := t.raw.length

/-- The token that ends a line, at the column after the last character. -/
def lineEnd (offset : Nat) (mode : Mode) : Token :=
  ⟨.lineEnd, ['\n'], offset, mode⟩

@[simp] theorem kind_lineEnd (offset : Nat) (mode : Mode) : (lineEnd offset mode).kind = .lineEnd :=
  rfl

end Token
end StructEdit
