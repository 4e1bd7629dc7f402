import StructEdit.Pattern.CharSet
import StructEdit.Text.Word

/-!
# Patterns and their preferred match

A pattern is read at the start of a text. It may match in several ways, and the
ways are ordered: the left branch of an alternative comes before the right one, and
one more round of a repetition before its end, or after it where the repetition
prefers few rounds. `matchLength?` is the length that the preferred way reads. It
need not be the longest one.

The text is read once from left to right. At each place the agendas in play are explored:
an agenda lists the patterns that are still to be matched, and exploring it gives its
moves, which are to stop, or to read a character of a set and go on with another agenda. Of
two equal moves the later one is dropped, so the agendas in play stay few.

At one place no choice is made twice. An alternative or repetition that is met again
before a character has been read has no further moves, even where some of its branches have
not been tried yet. A round that reads nothing therefore ends its repetition when it
is the first round, and is no way to go on after a round that has read something.
-/
namespace StructEdit

/-- The characters on both sides of a place; there is none beyond an end of the text. -/
structure Spot where
  before : Option Char
  after : Option Char

/-- A condition on a place that reads nothing. -/
inductive Anchor where
  | start
  | finish
  | wordStart
  | wordEnd
  deriving DecidableEq, Repr

def Anchor.holds (spot : Spot) : Anchor → Bool
  | .start => spot.before.isNone
  | .finish => spot.after.isNone
  | .wordStart => !spot.before.any Text.isWord && spot.after.any Text.isWord
  | .wordEnd => spot.before.any Text.isWord && !spot.after.any Text.isWord

/-- Whether a repetition prefers more rounds or fewer. -/
inductive Greed where
  | most
  | least
  deriving DecidableEq, Repr

inductive Pattern where
  | empty
  /-- Matches nothing and tells apart two choices that are written alike. -/
  | mark (n : Nat)
  | look (a : Anchor)
  | one (k : CharSet)
  | seq (p q : Pattern)
  | alt (p q : Pattern)
  /-- One round or more. -/
  | rounds (g : Greed) (p : Pattern)
  /-- The choice between a further round and the end of the repetition. -/
  | further (g : Greed) (p : Pattern)
  deriving DecidableEq, Repr

/-- What is still to be matched, in order. -/
abbrev Agenda := List Pattern

inductive Move where
  | stop
  | read (k : CharSet) (next : Agenda)
  deriving DecidableEq, Repr

namespace Move

def isStop : Move → Bool
  | .stop => true
  | .read _ _ => false

/-- The agenda to go on with after the character, if the move reads it. -/
def next? (c : Char) : Move → Option Agenda
  | .stop => none
  | .read k next => if k.contains c then some next else none

end Move

/-- Finds the moves at a place, the preferred one first. A choice is known by the agenda that starts
with it; those met before are passed in, and all those met by then are given back. -/
abbrev Explorer := List Agenda → List Move × List Agenda

namespace Explorer

def found (ms : List Move) : Explorer := fun met => (ms, met)

/-- The moves of `a` before those of `b`. -/
def both (a b : Explorer) : Explorer := fun met =>
  ((a met).1 ++ (b (a met).2).1, (b (a met).2).2)

/-- Explores a choice, unless it has been met. -/
def once (choice : Agenda) (a : Explorer) : Explorer := fun met =>
  if met.contains choice then ([], met) else a (choice :: met)

end Explorer

namespace Pattern

/-- Whether the pattern may match without reading. -/
def nullable : Pattern → Bool
  | .empty => true
  | .mark _ => true
  | .look _ => true
  | .one _ => false
  | .seq p q => p.nullable && q.nullable
  | .alt p q => p.nullable || q.nullable
  | .rounds _ p => p.nullable
  | .further _ _ => true

def plus (p : Pattern) : Pattern := .rounds .most p

def opt (p : Pattern) : Pattern := .alt p .empty

/-- Any number of rounds. Rounds that may be empty need a first one that is told from the others. -/
def star (p : Pattern) : Pattern := if p.nullable then opt (plus p) else .further .most p

def char (c : Char) : Pattern := .one (.single c)

/-- One pattern after the other. -/
def sequence : List Pattern → Pattern
  | [] => .empty
  | [p] => p
  | p :: ps => .seq p (sequence ps)

/-- Exactly the characters of `s`. -/
def literal (s : Text) : Pattern := sequence (s.map char)

/-- The first of the patterns that matches is preferred. -/
def oneOf : List Pattern → Pattern
  | [] => .one .none
  | [p] => p
  | p :: ps => .alt p (oneOf ps)

/-- Explores a pattern with the agenda `next` behind it; `after` explores that agenda. -/
def explore (spot : Spot) : Pattern → Agenda → Explorer → Explorer
  | .empty, _, after => after
  | .mark _, _, after => after
  | .look a, _, after => if a.holds spot then after else .found []
  | .one k, next, _ => .found [.read k next]
  | .seq p q, next, after => explore spot p (q :: next) (explore spot q next after)
  | .alt p q, next, after =>
    .once (.alt p q :: next) (.both (explore spot p next after) (explore spot q next after))
  | .rounds g p, next, after =>
    explore spot p (.further g p :: next) (.once (.further g p :: next) after)
  | .further g p, next, after =>
    let again := explore spot p (.further g p :: next) (.found [])
    .once (.further g p :: next)
      (match g with
      | .most => .both again after
      | .least => .both after again)

end Pattern

namespace Agenda

def explore (spot : Spot) : Agenda → Explorer
  | [] => .found [.stop]
  | p :: next => p.explore spot next (explore spot next)

/-- The moves of the agendas in play, those of an earlier agenda before those of a later one. -/
def moves (spot : Spot) (play : List Agenda) : List Move :=
  ((play.foldr (fun a b => .both (explore spot a) b) (Explorer.found [])) []).1.eraseDups

/-- The number of characters that the preferred match of the agendas in play reads; `before` is the
character read last. -/
def reach? (before : Option Char) (play : List Agenda) (s : Text) : Option Nat :=
  let ms := moves ⟨before, s.head?⟩ play
  let here := if ms.any Move.isStop then some 0 else none
  match s with
  | [] => here
  | c :: s =>
    match ((ms.takeWhile (!·.isStop)).filterMap (Move.next? c)).eraseDups with
    | [] => here
    | play => ((reach? (some c) play s).map (· + 1)).or here

theorem reach?_le {before : Option Char} {play : List Agenda} {s : Text} {n : Nat}
    (h : reach? before play s = some n) : n ≤ s.length := by
  induction s generalizing before play n with
  | nil =>
    simp only [reach?] at h
    split at h
    · simp only [Option.some.injEq] at h; omega
    · simp at h
  | cons c s ih =>
    simp only [reach?] at h
    split at h
    · split at h
      · simp only [Option.some.injEq] at h; omega
      · simp at h
    · rw [Option.or_eq_some_iff] at h
      rcases h with h | ⟨-, h⟩
      · obtain ⟨m, hm, rfl⟩ := Option.map_eq_some_iff.1 h
        exact Nat.succ_le_succ (ih hm)
      · split at h
        · simp only [Option.some.injEq] at h; omega
        · simp at h

end Agenda

namespace Pattern

/-- The number of characters that the preferred match reads. -/
def matchLength? (p : Pattern) (s : Text) : Option Nat := Agenda.reach? none [[p]] s

theorem matchLength?_le {p : Pattern} {s : Text} {n : Nat} (h : p.matchLength? s = some n) :
    n ≤ s.length := Agenda.reach?_le h

end Pattern
end StructEdit
