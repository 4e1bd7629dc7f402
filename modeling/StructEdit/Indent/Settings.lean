import StructEdit.Indent.Builtin

/-!
# Indentation settings

How many lists and lines around a place are looked at, and the table of rules.
-/
namespace StructEdit

structure IndentSettings where
  maxDepth : Nat
  maxLines : Nat
  rules : RuleTable

namespace IndentSettings

def default : IndentSettings := ⟨3, 20, .builtin⟩

def agrees (s t : IndentSettings) : Bool :=
  s.maxDepth == t.maxDepth && s.maxLines == t.maxLines && s.rules.agrees t.rules

end IndentSettings

end StructEdit
