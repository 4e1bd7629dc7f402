import StructEdit.Document.Caret
import StructEdit.Document.Growth
import StructEdit.Document.Pairs
import StructEdit.Document.Raise
import StructEdit.Document.Slurp

/-!
# Commands

Everything a user can ask of a document, as data. `Command.run` carries one out and
`Command.runAll` a list of them, so that a session is a list of commands.
-/
namespace StructEdit

inductive Command where
  | insert (text : Text)
  | replaceAll (text : Text)
  | deleteSelection
  | backspace
  | delete
  | newline
  | undo
  | redo
  | left (clear : Bool)
  | right (clear : Bool)
  | home (clear : Bool)
  | toLineEnd (clear : Bool)
  | toStart (clear : Bool)
  | toEnd (clear : Bool)
  | up (clear : Bool)
  | down (clear : Bool)
  | selectAll
  | setCaret (offset : Nat)
  | select (s : Selection)
  | setAnchor (offset : Nat)
  | stretchTo (offset : Nat)
  | wrap (opener closer : Text)
  | split
  | join
  | splice
  | spliceAt (offset : Nat)
  /-- At an offset, or at the caret. -/
  | killBackward (offset : Option Nat)
  /-- At an offset, or at the caret. -/
  | killForward (offset : Option Nat)
  | spliceKillingBackward
  | spliceKillingForward
  | slurpForward
  | slurpBackward
  | barfForward
  | barfBackward
  | openPair (pair : Text)
  | closeList (closer : Text)
  | backspacePair
  | deletePairForward
  | quote
  | grow
  | shrink
  | raise
  | convolute
  deriving DecidableEq, Repr

/-- What a command gives back. -/
inductive Reply where
  | done
  | moved (offset : Nat)
  | refused (r : Refusal)
  deriving DecidableEq, Repr

namespace Reply

def ofUnit : Except Refusal Unit → Reply
  | .ok () => .done
  | .error r => .refused r

def ofOffset : Except Refusal Nat → Reply
  | .ok n => .moved n
  | .error r => .refused r

end Reply

namespace Command

def run (c : Command) (d : Document) : Document × Reply :=
  match c with
  | .insert text => (d.insert text, .done)
  | .replaceAll text => (d.replaceAll text, .done)
  | .deleteSelection => (d.deleteSelection, .done)
  | .backspace => (d.backspace, .done)
  | .delete => (d.delete, .done)
  | .newline => (d.newline, .done)
  | .undo => (d.undo, .done)
  | .redo => (d.redo, .done)
  | .left clear => (d.left clear, .done)
  | .right clear => (d.right clear, .done)
  | .home clear => (d.home clear, .done)
  | .toLineEnd clear => (d.toLineEnd clear, .done)
  | .toStart clear => (d.toStart clear, .done)
  | .toEnd clear => (d.toEnd clear, .done)
  | .up clear => (d.up clear, .done)
  | .down clear => (d.down clear, .done)
  | .selectAll => (d.selectAll, .done)
  | .setCaret offset => (d.setCaret offset, .done)
  | .select s => (d.select s, .done)
  | .setAnchor offset => (d.setAnchor offset, .done)
  | .stretchTo offset => (d.stretchTo offset, .done)
  | .wrap opener closer => (d.wrap opener closer).map id .ofUnit
  | .split => (d.split, .done)
  | .join => d.join.map id .ofUnit
  | .splice => d.spliceList.map id .ofUnit
  | .spliceAt offset => (d.spliceAt offset).map id .ofUnit
  | .killBackward offset => (d.killBackward (offset.getD d.caret)).map id .ofOffset
  | .killForward offset => (d.killForward (offset.getD d.caret)).map id .ofOffset
  | .spliceKillingBackward => d.spliceKillingBackward.map id .ofUnit
  | .spliceKillingForward => d.spliceKillingForward.map id .ofUnit
  | .slurpForward => (d.slurpForward, .done)
  | .slurpBackward => (d.slurpBackward, .done)
  | .barfForward => (d.barfForward, .done)
  | .barfBackward => (d.barfBackward, .done)
  | .openPair pair => (d.openPair pair, .done)
  | .closeList closer => (d.closeList closer, .done)
  | .backspacePair => (d.backspacePair, .done)
  | .deletePairForward => (d.deletePairForward, .done)
  | .quote => (d.quote, .done)
  | .grow => (d.grow, .done)
  | .shrink => (d.shrink, .done)
  | .raise => (d.raise, .done)
  | .convolute => (d.convolute, .done)

/-- The document after the command. -/
def apply (c : Command) (d : Document) : Document := (c.run d).1

def runAll (cs : List Command) (d : Document) : Document := cs.foldl (fun d c => c.apply d) d

theorem runAll_replicate_succ (c : Command) (n : Nat) (d : Document) :
    runAll (List.replicate (n + 1) c) d = c.apply (runAll (List.replicate n c) d) := by
  rw [List.replicate_succ', runAll, runAll, List.foldl_append]
  rfl

end Command
end StructEdit
