import StructEdit.Pattern.Class

/-!
# Reading patterns from text

The written form has literal characters, `.`, the signs of `Sign.ofEscape?`, classes,
groups, `|`, `^` and `$` for the ends of the text, and the operators `*`, `+` and `?` after
what they repeat; with a `?` behind it an operator prefers few rounds. A branch may be empty.
Reading fails on an operator with nothing to repeat, on a group or class that is not closed,
on a closing parenthesis without its group, on a range that runs backwards and on a
backslash without a sign. An opening brace is reserved.

When all branches of a choice have at least two items and begin with the same items, these
are read before the choice. It is then the choice that gives way first: the shared items
are read again in another way only after every branch has failed behind them. An item
with a group in it is not the same as any other.

A text is read as the body of a group that follows a `^`. A text that closes this group
itself has to open another one. A branch that it starts outside is not held by the `^`, and
the whole then skips as few characters as it can.
-/
namespace StructEdit.Pattern

inductive Repeat where
  | opt (g : Greed)
  | plus (g : Greed)
  | star (g : Greed)
  deriving DecidableEq, Repr

namespace Repeat

/-- The operator that a character writes. -/
def ofChar? (g : Greed) (c : Char) : Option Repeat :=
  match c with
  | '?' => some (.opt g)
  | '+' => some (.plus g)
  | '*' => some (.star g)
  | _ => none

def apply (p : Pattern) : Repeat → Pattern
  | .opt .most => .opt p
  | .opt .least => .alt .empty p
  | .plus g => .rounds g p
  | .star .most => .star p
  | .star .least => if p.nullable then .alt .empty (.rounds .least p) else .further .least p

end Repeat

/-- What an operator can follow. -/
inductive Atom where
  | set (k : CharSet) (height : Nat)
  | look (a : Anchor)
  | group (p : Pattern) (height : Nat)

namespace Atom

def char (c : Char) : Atom := .set (.single c) 0

def pattern : Atom → Pattern
  | .set k _ => .one k
  | .look a => .look a
  | .group p _ => p

def height : Atom → Nat
  | .set _ h => h
  | .look _ => 0
  | .group _ h => h

/-- Whether both mean the same; a group is like no other. -/
def same : Atom → Atom → Bool
  | .set k _, .set l _ => k.same l
  | .look a, .look b => a = b
  | _, _ => false

end Atom

/-- An atom with its operators, the last one first. No two items of a text have the same number. -/
structure Item where
  number : Nat
  atom : Atom
  repeats : List Repeat

namespace Item

/-- The item is marked with its number, so that its choices are told from those of an item that is
written alike. -/
def pattern (x : Item) : Pattern :=
  .seq (x.repeats.foldr (fun r p => r.apply p) x.atom.pattern) (.mark x.number)

def height (x : Item) : Nat := x.repeats.length + x.atom.height

def same (x y : Item) : Bool := x.repeats = y.repeats && x.atom.same y.atom

end Item

/-- The items that both branches begin with. -/
def shared : List Item → List Item → List Item
  | x :: xs, y :: ys => if x.same y then x :: shared xs ys else []
  | _, _ => []

/-- The height of several parts side by side: one more than that of the highest. -/
def heightOf : List Nat → Nat
  | [] => 0
  | [h] => h
  | hs => hs.foldl max 0 + 1

/-- A group that is still open: its finished branches and the items of the current branch, both
with the last one first. -/
structure Frame where
  branches : List (List Item)
  items : List Item

namespace Frame

def new : Frame := ⟨[], []⟩

def push (f : Frame) (number : Nat) (x : Atom) : Frame :=
  { f with items := ⟨number, x, []⟩ :: f.items }

def alternate (f : Frame) : Frame := ⟨f.items.reverse :: f.branches, []⟩

/-- The branches in the order of the text. -/
def choices (f : Frame) : List (List Item) := (f.items.reverse :: f.branches).reverse

def height (f : Frame) : Nat :=
  heightOf (f.choices.map fun b => heightOf (b.map Item.height))

/-- The items that are read before the choice. -/
def lead (f : Frame) : List Item :=
  match f.choices with
  | b :: c :: bs => if (b :: c :: bs).all (2 ≤ ·.length) then (c :: bs).foldl shared b else []
  | _ => []

def pattern (f : Frame) : Pattern :=
  let lead := f.lead
  let rests := f.choices.map fun b => b.drop lead.length
  sequence (lead.map Item.pattern ++ [oneOf (rests.map fun b => sequence (b.map Item.pattern))])

/-- The group as a part of the frame around it. -/
def close (f : Frame) : Atom := .group f.pattern (f.height + 1)

/-- Applies an operator to the last item. -/
def repeatLast? (f : Frame) (r : Repeat) : Option Frame :=
  match f.items with
  | [] => none
  | x :: xs => some { f with items := { x with repeats := r :: x.repeats } :: xs }

end Frame

theorem classFrom?_length {top : OpenClass} {outer : List OpenClass} {s r : List Sign} {x : Nested}
    (h : classFrom? top outer s = some (x, r)) : r.length < s.length := by
  fun_induction classFrom? top outer s with
  | case1 top s =>
    obtain ⟨-, rfl⟩ := Prod.mk.inj (Option.some.inj h)
    simp
  | case2 top s k ks ih => exact Nat.lt_succ_of_lt (ih h)
  | case3 top outer s y t ht hlt ih => exact Nat.lt_trans (ih h) (Nat.lt_succ_of_lt hlt)
  | case4 top outer s ht hle ih => exact Nat.lt_of_lt_of_le (ih h) (Nat.le_succ_of_le hle)
  | case5 top outer s ih => exact Nat.lt_succ_of_lt (Nat.lt_succ_of_lt (ih h))
  | case6 top outer s ih => exact Nat.lt_succ_of_lt (Nat.lt_succ_of_lt (ih h))
  | case7 top outer s ih => exact Nat.lt_succ_of_lt (Nat.lt_succ_of_lt (ih h))
  | case8 top outer s _ _ _ _ _ y t ht hlt ih => exact Nat.lt_trans (ih h) hlt
  | case9 => simp at h

theorem charClass?_length {s r : List Sign} {x : Nested} (h : charClass? s = some (x, r)) :
    r.length < s.length :=
  Nat.lt_of_lt_of_le (classFrom?_length h) (openClass_length s)

/-- Reads the rest of a pattern inside the open groups `top :: outer`, innermost first. An item gets
the number of signs behind it. -/
def parseFrom? (top : Frame) (outer : List Frame) (s : List Sign) : Option Frame :=
  match s with
  | [] => if outer.isEmpty then some top else none
  | .escaped c :: s => parseFrom? (top.push s.length (.char c)) outer s
  | .blank :: s => parseFrom? (top.push s.length (.set .blank 0)) outer s
  | .look a :: s => parseFrom? (top.push s.length (.look a)) outer s
  | .plain '^' :: s => parseFrom? (top.push s.length (.look .start)) outer s
  | .plain '$' :: s => parseFrom? (top.push s.length (.look .finish)) outer s
  | .plain '.' :: s => parseFrom? (top.push s.length (.set .dot 0)) outer s
  | .plain '\x7b' :: _ => none
  | .plain '(' :: s => parseFrom? .new (top :: outer) s
  | .plain ')' :: s =>
    match outer with
    | [] => none
    | f :: fs => parseFrom? (f.push s.length top.close) fs s
  | .plain '|' :: s => parseFrom? top.alternate outer s
  | .plain '[' :: s =>
    match h : charClass? s with
    | none => none
    | some (x, r) =>
      have := charClass?_length h
      parseFrom? (top.push r.length (.set x.set x.height)) outer r
  | .plain c :: .plain '?' :: s =>
    match Repeat.ofChar? .least c with
    | some r => (top.repeatLast? r).bind fun f => parseFrom? f outer s
    | none => parseFrom? (top.push (s.length + 1) (.char c)) outer (.plain '?' :: s)
  | .plain c :: s =>
    match Repeat.ofChar? .most c with
    | some r => (top.repeatLast? r).bind fun f => parseFrom? f outer s
    | none => parseFrom? (top.push s.length (.char c)) outer s
termination_by s.length
decreasing_by all_goals simp only [List.length_cons]; omega

/-- Whether every match begins at the start of the text. -/
def anchored : Pattern → Bool
  | .look .start => true
  | .seq p q => p.anchored || q.anchored
  | .alt p q => p.anchored && q.anchored
  | .rounds _ p => p.anchored
  | _ => false

/-- The pattern with as few characters as possible in front of it. -/
def floating (p : Pattern) : Pattern :=
  .seq (.further .least (.one (.compl .none))) p

/-- How many levels of groups, choices, sequences, operators and classes a pattern may have, the
outermost group and its `^` included. -/
def maxHeight : Nat := 250

/-- The pattern that the text writes, or `none` when it writes none. -/
def parse? (s : Text) : Option Pattern := do
  let signs ← signs? (s ++ [')'])
  let f ← parseFrom? .new [Frame.new.push signs.length (.look .start)] signs
  if f.height ≤ maxHeight then
    return if f.pattern.anchored then f.pattern else floating f.pattern
  else none

end StructEdit.Pattern
