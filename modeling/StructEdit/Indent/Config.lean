import StructEdit.Indent.Column
import StructEdit.Toml.Parser

/-!
# Settings from a configuration file

The settings stand in the table `indent` of a TOML document. Keys that are missing
keep their defaults, and the rules of a symbol replace the built-in ones.

Reading has two stages. The first takes the shape: which keys there are and of what
type, where any fault makes the file malformed. The second judges the contents: the
limits first, then the rules in the order of the file.
-/
namespace StructEdit

/-- The limits that a file can set. -/
inductive Limit where
  | depth
  | lines
  deriving DecidableEq, Repr

def Limit.key : Limit → String
  | .depth => "max-depth"
  | .lines => "max-lines"

/-- What can be wrong with a rule. -/
inductive RuleFault where
  | unknownKind (kind : Text)
  /-- A block rule with a second argument. -/
  | blockLimit
  deriving DecidableEq, Repr

inductive ConfigError where
  | malformed
  | invalidLimit (l : Limit)
  | invalidRule (symbol : Text) (fault : RuleFault)
  deriving DecidableEq, Repr

namespace ConfigError

def ruleMessage : RuleFault → String
  | .unknownKind kind => "unknown rule kind `" ++ String.ofList kind ++ "`"
  | .blockLimit => "block rules take a single argument"

def message : ConfigError → String
  | .malformed => "failed to parse indent config"
  | .invalidLimit l => "`" ++ l.key ++ "` must be greater than zero"
  | .invalidRule symbol fault =>
    "invalid indent rule for `" ++ String.ofList symbol ++ "`: " ++ ruleMessage fault

end ConfigError

structure RawRule where
  kind : Text
  count : Nat
  limit : Option Nat
  deriving DecidableEq, Repr

def RawRule.check (r : RawRule) : Except RuleFault IndentRule :=
  if r.kind = "inner".toList then .ok (.inner r.count r.limit)
  else if r.kind = "block".toList then
    match r.limit with
    | none => .ok (.block r.count)
    | some _ => .error .blockLimit
  else .error (.unknownKind r.kind)

structure RawSettings where
  maxDepth : Nat
  maxLines : Nat
  rules : List (Text × List RawRule)
  deriving DecidableEq, Repr

namespace RawSettings

def default : RawSettings :=
  ⟨IndentSettings.default.maxDepth, IndentSettings.default.maxLines, []⟩

/-- Puts the user's rules into a table one symbol after the other. -/
def merge (t : RuleTable) : List (Text × List RawRule) → Except ConfigError RuleTable
  | [] => .ok t
  | (symbol, raw) :: rest =>
    match raw.mapM RawRule.check with
    | .ok rules => merge (t.insert symbol rules) rest
    | .error fault => .error (.invalidRule symbol fault)

def check (r : RawSettings) : Except ConfigError IndentSettings :=
  if r.maxDepth = 0 then .error (.invalidLimit .depth)
  else if r.maxLines = 0 then .error (.invalidLimit .lines)
  else (merge .builtin r.rules).map fun t => ⟨r.maxDepth, r.maxLines, t⟩

end RawSettings

namespace Toml.Value

def nat? : Value → Option Nat
  | .integer n => if 0 ≤ n then some n.toNat else none
  | _ => none

def rule? : Value → Option RawRule
  | .array [.text kind, count] => do return ⟨kind, ← nat? count, none⟩
  | .array [.text kind, count, limit] => do return ⟨kind, ← nat? count, some (← nat? limit)⟩
  | _ => none

def rules? : Value → Option (List RawRule)
  | .array items => items.mapM rule?
  | _ => none

def ruleTable? : Value → Option (List (Text × List RawRule))
  | .table entries => entries.mapM fun (symbol, v) => (rules? v).map fun rs => (symbol, rs)
  | _ => none

/-- Takes in one entry of the table. -/
def setting? (r : RawSettings) (key : Text) (v : Value) : Option RawSettings :=
  if key = "max-depth".toList then (nat? v).map fun n => { r with maxDepth := n }
  else if key = "max-lines".toList then (nat? v).map fun n => { r with maxLines := n }
  else if key = "rules".toList then (ruleTable? v).map fun rs => { r with rules := rs }
  else none

def settingsOfEntries? (entries : List (Text × Value)) : Option RawSettings :=
  entries.foldlM (fun r (key, v) => setting? r key v) .default

/-- A list gives the settings by position: depth, lines, rules. What follows is not looked at. -/
def settingsOfItems? (items : List Value) : Option RawSettings :=
  settingsOfEntries? (["max-depth".toList, "max-lines".toList, "rules".toList].zip items)

def settings? : Value → Option RawSettings
  | .table entries => settingsOfEntries? entries
  | .array items => settingsOfItems? items
  | _ => none

end Toml.Value

namespace IndentSettings

/-- The settings in the table `indent` of a document. -/
def ofToml (source : Text) : Except ConfigError IndentSettings :=
  let raw := do
    let entries ← Toml.parse? source
    match entries.lookup "indent".toList with
    | none => some RawSettings.default
    | some v => v.settings?
  match raw with
  | none => .error .malformed
  | some r => r.check

/-- The settings of a document that is itself the table; every fault makes it malformed. -/
def ofTomlTable (source : Text) : Except ConfigError IndentSettings :=
  match (Toml.parse? source).bind Toml.Value.settingsOfEntries? with
  | none => .error .malformed
  | some r => r.check.mapError fun _ => .malformed

end IndentSettings
end StructEdit
