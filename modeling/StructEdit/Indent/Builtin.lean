import StructEdit.Indent.Rule

/-!
# The built-in rules

The indentation of the forms of Clojure and of its common libraries.
-/
namespace StructEdit.RuleTable

def builtinEntries : List (String × List IndentRule) :=
  [("alt!", [.block 0]),
   ("alt!!", [.block 0]),
   ("are", [.block 2]),
   ("as->", [.block 2]),
   ("binding", [.block 1]),
   ("bound-fn", [.inner 1 none]),
   ("case", [.block 1]),
   ("catch", [.block 2]),
   ("comment", [.block 0]),
   ("cond", [.block 0]),
   ("condp", [.block 2]),
   ("cond->", [.block 1]),
   ("cond->>", [.block 1]),
   ("def", [.inner 0 none]),
   ("defmacro", [.inner 0 none]),
   ("defmethod", [.inner 0 none]),
   ("defmulti", [.inner 0 none]),
   ("defn", [.inner 0 none]),
   ("defn-", [.inner 0 none]),
   ("defonce", [.inner 0 none]),
   ("defprotocol", [.block 1, .inner 1 none]),
   ("defrecord", [.block 2, .inner 1 none]),
   ("defstruct", [.block 1]),
   ("deftest", [.inner 0 none]),
   ("deftype", [.block 2, .inner 1 none]),
   ("do", [.block 0]),
   ("doseq", [.block 1]),
   ("dotimes", [.block 1]),
   ("doto", [.block 1]),
   ("extend", [.block 1]),
   ("extend-protocol", [.block 1, .inner 1 none]),
   ("extend-type", [.block 1, .inner 1 none]),
   ("fdef", [.inner 0 none]),
   ("finally", [.block 0]),
   ("fn", [.inner 0 none]),
   ("for", [.block 1]),
   ("future", [.block 0]),
   ("go", [.block 0]),
   ("go-loop", [.block 1]),
   ("if", [.block 1]),
   ("if-let", [.block 1]),
   ("if-not", [.block 1]),
   ("if-some", [.block 1]),
   ("let", [.block 1]),
   ("letfn", [.block 1, .inner 2 (some 0)]),
   ("locking", [.block 1]),
   ("loop", [.block 1]),
   ("match", [.block 1]),
   ("ns", [.block 1]),
   ("proxy", [.block 2, .inner 1 none]),
   ("reify", [.inner 0 none, .inner 1 none]),
   ("struct-map", [.block 1]),
   ("testing", [.block 1]),
   ("thread", [.block 0]),
   ("try", [.block 0]),
   ("use-fixtures", [.inner 0 none]),
   ("when", [.block 1]),
   ("when-first", [.block 1]),
   ("when-let", [.block 1]),
   ("when-not", [.block 1]),
   ("when-some", [.block 1]),
   ("while", [.block 1]),
   ("with-local-vars", [.block 1]),
   ("with-open", [.block 1]),
   ("with-out-str", [.block 0]),
   ("with-precision", [.block 1]),
   ("with-redefs", [.block 1])]

def builtin : RuleTable :=
  empty.insertAll (builtinEntries.map fun (symbol, rules) => (symbol.toList, rules))

end StructEdit.RuleTable
