import StructEdit.Scan.Grammar

/-!
# Scanning one line

`scanLine` reads a line in a given mode and returns its tokens, the end of the
line included, and the mode that the next line starts in. The grammar changes in
the middle of the line where a string starts or ends. Text that the grammar
cannot read becomes one token of junk that runs to the end of the line.
-/
namespace StructEdit
namespace Lexer

/-- The next token; what cannot be read is junk. -/
def scanOrSkip (x : Lexer) : Option (Token × Lexer) :=
  match x.scan with
  | .ok r => r
  | .error _ => x.skipRest

theorem rest_scanOrSkip_lt {x y : Lexer} {t : Token} (h : x.scanOrSkip = some (t, y)) :
    y.rest.length < x.rest.length := by
  unfold scanOrSkip at h
  split at h
  · rename_i r hr
    exact rest_scan_lt (h ▸ hr)
  · exact rest_skipRest_lt h

/-- The tokens from here to the end of the line, each stamped with the mode after it. -/
def tokens (mode : Mode) (x : Lexer) : List Token × Mode :=
  match h : x.scanOrSkip with
  | none => ([.lineEnd x.column mode], mode)
  | some (t, y) =>
    have := rest_scanOrSkip_lt h
    let next := mode.after t.kind
    let (ts, last) := tokens next (y.switch next.grammar)
    ({ t with mode := next } :: ts, last)
termination_by x.rest.length

theorem tokens_ne_nil (mode : Mode) (x : Lexer) : (x.tokens mode).1 ≠ [] := by
  unfold tokens
  split <;> simp

end Lexer

def scanLine (line : Text) (mode : Mode) : List Token × Mode :=
  (Lexer.new mode.grammar line).tokens mode

theorem scanLine_ne_nil (line : Text) (mode : Mode) : (scanLine line mode).1 ≠ [] :=
  Lexer.tokens_ne_nil _ _

/-- Scans the lines one after the other, each in the mode that the one before it ends in. -/
def scanLines (mode : Mode) : List Text → List (List Token × Mode)
  | [] => []
  | l :: ls =>
    let r := scanLine l mode
    r :: scanLines r.2 ls

end StructEdit
