import StructEdit.Lexer

/-!
# The grammars of Clojure lines

Code and the inside of a string are read with two grammars. In code, a string
that its line does not close is a `stringStart`. Inside a string, the text up to
the closing quote is a `stringEnd`, and without a closing quote it is a
`stringMiddle`.
-/
namespace StructEdit.Scan
open Pattern

def digit : CharSet := .range '0' '9'

/-- Characters that end a symbol or keyword. -/
def delimiter : CharSet :=
  .union .blank (.ofList
    ['(', ')', '[', ']', '\x7b', '\x7d', '#', ',', '~', '@', '\'', '\x60', '^', '"', ';'])

def symbolChar : CharSet := .compl delimiter

/-- A symbol starts with any of its characters but the colon. -/
def symbolHead : CharSet := .compl (.union (.single ':') delimiter)

/-- Any of the given texts, an earlier one preferred to a later one. -/
def anyOf (texts : List String) : Pattern :=
  oneOf (texts.map fun s => .literal s.toList)

def digits : Pattern := .plus (.one digit)

def sign : Pattern := .opt (.one (.ofList ['-', '+']))

/-- A number written in a base: the base, `r` or `R`, and the digits. -/
def radixNumber : Pattern :=
  .seq digits (.seq (.one (.ofList ['r', 'R']))
    (.plus (.one (.union digit (.union (.range 'a' 'z') (.range 'A' 'Z'))))))

/-- A decimal number with an optional fraction and an optional exponent. -/
def decimalNumber : Pattern :=
  .seq sign (.seq digits (.seq
    (.opt (.seq (.char '.') digits))
    (.opt (.seq (.one (.ofList ['e', 'E'])) (.seq sign digits)))))

/-- Characters of a string up to a quote; a backslash takes the next character along. -/
def stringChars : Pattern :=
  .star (.alt (.one (.compl (.ofList ['"', '\\'])))
    (.seq (.char '\\') (.one .dot)))

def codeGrammar : Grammar :=
  [⟨.plus (.one (.union .blank (.single ','))), .blank⟩,
   ⟨.seq (.char ';') (.star (.one .dot)), .comment⟩,
   ⟨anyOf ["(", "[", "\x7b", "#(", "#?(", "#\x7b", "#?@("], .opening⟩,
   ⟨anyOf [")", "]", "\x7d"], .closing⟩,
   ⟨anyOf ["~@", "~", "'", "#'", "#:", "#_", "^", "`", "#", "^:"], .mark⟩,
   ⟨anyOf ["true", "false", "nil"], .literal⟩,
   ⟨radixNumber, .literal⟩,
   ⟨decimalNumber, .literal⟩,
   ⟨.seq (.char ':') (.star (.one symbolChar)), .keyword⟩,
   ⟨.seq (.one symbolHead) (.star (.one symbolChar)), .symbol⟩,
   ⟨.seq (.char '"') (.seq stringChars (.char '"')), .string⟩,
   ⟨.seq (.char '"') stringChars, .stringStart⟩,
   ⟨.one .dot, .junk⟩]

def stringGrammar : Grammar :=
  [⟨.seq stringChars (.char '"'), .stringEnd⟩,
   ⟨stringChars, .stringMiddle⟩]

end StructEdit.Scan

namespace StructEdit

/-- The grammar that reads a line in the given mode. -/
def Mode.grammar : Mode → Grammar
  | .code => Scan.codeGrammar
  | .string => Scan.stringGrammar

end StructEdit
