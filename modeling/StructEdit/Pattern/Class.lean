import StructEdit.Pattern.Sign

/-!
# Reading classes of characters

A class stands between brackets. Its items are characters, ranges, `\s`, inner classes and
named classes such as `[:alpha:]`, and it is the union of its items. The operators `&&`, `--` and
`~~` take intersections, differences and symmetric differences of unions, from left to
right. A `^` in front complements the whole. Hyphens in front are characters, and so is a
closing bracket in front when no hyphen comes before it; a hyphen in front of the
closing bracket or of another hyphen makes no range.

The height of a class is the number of levels at which it is nested; see `Pattern.parse?`.
-/
namespace StructEdit.Pattern

structure Nested where
  set : CharSet
  height : Nat

inductive SetOp where
  | inter
  | diff
  | symmDiff
  deriving DecidableEq, Repr

def SetOp.apply : SetOp → CharSet → CharSet → CharSet
  | .inter => .inter
  | .diff => .diff
  | .symmDiff => .symmDiff

structure Items where
  set : CharSet
  count : Nat
  height : Nat

namespace Items

def none : Items := ⟨.none, 0, 0⟩

def add (u : Items) (x : Nested) : Items :=
  ⟨.union u.set x.set, u.count + 1, max u.height x.height⟩

/-- Several items are one level higher than a single one. -/
def nested (u : Items) : Nested :=
  ⟨u.set, if u.count ≤ 1 then u.height else u.height + 1⟩

end Items

structure OpenClass where
  negated : Bool
  pending : Option (SetOp × Nested)
  items : Items

namespace OpenClass

def add (k : OpenClass) (x : Nested) : OpenClass := { k with items := k.items.add x }

/-- What the class amounts to up to here, before it is complemented. -/
def operand (k : OpenClass) : Nested :=
  match k.pending with
  | none => k.items.nested
  | some (op, l) =>
    ⟨op.apply l.set k.items.nested.set, max l.height k.items.nested.height + 1⟩

def operator (k : OpenClass) (op : SetOp) : OpenClass :=
  { k with pending := some (op, k.operand), items := .none }

def close (k : OpenClass) : Nested :=
  ⟨if k.negated then .compl k.operand.set else k.operand.set, k.operand.height + 1⟩

end OpenClass

/-- The members of a named class, as ranges. -/
def namedClass? (name : String) : Option (List (Char × Char)) :=
  match name with
  | "alnum" => some [('0', '9'), ('A', 'Z'), ('a', 'z')]
  | "alpha" => some [('A', 'Z'), ('a', 'z')]
  | "ascii" => some [('\x00', '\x7f')]
  | "blank" => some [('\t', '\t'), (' ', ' ')]
  | "cntrl" => some [('\x00', '\x1f'), ('\x7f', '\x7f')]
  | "digit" => some [('0', '9')]
  | "graph" => some [('!', '~')]
  | "lower" => some [('a', 'z')]
  | "print" => some [(' ', '~')]
  | "punct" => some [('!', '/'), (':', '@'), ('[', '\x60'), ('\x7b', '~')]
  | "space" => some [('\t', '\r'), (' ', ' ')]
  | "upper" => some [('A', 'Z')]
  | "word" => some [('0', '9'), ('A', 'Z'), ('_', '_'), ('a', 'z')]
  | "xdigit" => some [('0', '9'), ('A', 'F'), ('a', 'f')]
  | _ => none

/-- The set of a name that stands between colons. -/
def named? (negated : Bool) (name : List Sign) : Option Nested :=
  (namedClass? (String.ofList (name.filterMap Sign.char?))).map fun ranges =>
    let set := ranges.foldr (fun (lo, hi) k => CharSet.union (.range lo hi) k) .none
    ⟨if negated then .compl set else set, 0⟩

/-- A named class behind its opening bracket, and what follows it. -/
def namedItem? (s : List Sign) : Option (Nested × List Sign) :=
  let (negated, s) := match s with
    | .plain ':' :: .plain '^' :: s => (true, s)
    | .plain ':' :: s => (false, s)
    | _ => (false, [])
  match s.dropWhile (· ≠ .plain ':') with
  | .plain ':' :: .plain ']' :: r =>
    (named? negated (s.takeWhile (· ≠ .plain ':'))).map fun x => (x, r)
  | _ => none

/-- A class behind its opening bracket, with the characters that stand in front, and the rest. -/
def openClass (s : List Sign) : OpenClass × List Sign :=
  let (negated, s) := match s with
    | .plain '^' :: s => (true, s)
    | s => (false, s)
  let literal (cs : List Char) : OpenClass :=
    ⟨negated, none, cs.foldl (fun u c => u.add ⟨.single c, 0⟩) .none⟩
  match s with
  | .plain ']' :: s => (literal [']'], s)
  | s => (literal ((s.takeWhile (· = .plain '-')).map fun _ => '-'), s.dropWhile (· = .plain '-'))

/-- The set that a range of two signs writes. -/
def range? (a b : Sign) : Option Nested :=
  match a.char?, b.char? with
  | some lo, some hi => if lo ≤ hi then some ⟨.range lo hi, 0⟩ else none
  | _, _ => none

/-- The next item that is neither an inner class nor an operator, and what follows it. -/
def plainItem? : List Sign → Option (Nested × List Sign)
  | [] => none
  | a :: .plain '-' :: b :: s =>
    if b = .plain ']' ∨ b = .plain '-' then a.set?.map fun k => (⟨k, 0⟩, .plain '-' :: b :: s)
    else (range? a b).map fun x => (x, s)
  | a :: s => a.set?.map fun k => (⟨k, 0⟩, s)

theorem namedItem?_length {s r : List Sign} {x : Nested} (h : namedItem? s = some (x, r)) :
    r.length < s.length := by
  have key : ∀ (t : List Sign) (n : Bool), (match t.dropWhile (· ≠ .plain ':') with
      | .plain ':' :: .plain ']' :: r =>
        (named? n (t.takeWhile (· ≠ .plain ':'))).map fun x => (x, r)
      | _ => none) = some (x, r) → r.length < t.length := by
    intro t n ht
    split at ht
    · rename_i r' hr
      obtain ⟨_, _, he⟩ := Option.map_eq_some_iff.1 ht
      have hle := (List.dropWhile_suffix (l := t) (· ≠ Sign.plain ':')).length_le
      rw [hr, List.length_cons, List.length_cons] at hle
      rw [← (Prod.mk.inj he).2]
      omega
    · simp at ht
  unfold namedItem? at h
  split at h
  rename_i n t ht
  have hlt := key t n h
  split at ht <;> obtain ⟨-, rfl⟩ := Prod.mk.inj ht
  · simp only [List.length_cons]; omega
  · simp only [List.length_cons]; omega
  · simp at hlt

theorem openClass_length (s : List Sign) : (openClass s).2.length ≤ s.length := by
  have key : ∀ t : List Sign, (t.dropWhile (· = .plain '-')).length ≤ t.length := fun t =>
    (List.dropWhile_suffix (l := t) (· = Sign.plain '-')).length_le
  unfold openClass
  split
  rename_i n t ht
  have hlt : t.length ≤ s.length := by
    split at ht <;> obtain ⟨-, rfl⟩ := Prod.mk.inj ht
    · simp
    · exact Nat.le_refl _
  split
  · rename_i t'
    exact Nat.le_trans (Nat.le_succ _) hlt
  · exact Nat.le_trans (key _) hlt

theorem plainItem?_length {s r : List Sign} {x : Nested} (h : plainItem? s = some (x, r)) :
    r.length < s.length := by
  unfold plainItem? at h
  split at h
  · simp at h
  · split at h <;> obtain ⟨_, _, he⟩ := Option.map_eq_some_iff.1 h <;> rw [← (Prod.mk.inj he).2]
    · simp
    · simp only [List.length_cons]; omega
  · obtain ⟨_, _, he⟩ := Option.map_eq_some_iff.1 h
    rw [← (Prod.mk.inj he).2]
    simp

/-- Reads the rest of the open classes `top :: outer`, innermost first, and what follows them. -/
def classFrom? (top : OpenClass) (outer : List OpenClass) (s : List Sign) :
    Option (Nested × List Sign) :=
  match s with
  | .plain ']' :: s =>
    match outer with
    | [] => some (top.close, s)
    | k :: ks => classFrom? (k.add top.close) ks s
  | .plain '[' :: s =>
    match h : namedItem? s with
    | some (x, r) =>
      have := namedItem?_length h
      classFrom? (top.add x) outer r
    | none =>
      have := openClass_length s
      classFrom? (openClass s).1 (top :: outer) (openClass s).2
  | .plain '&' :: .plain '&' :: s => classFrom? (top.operator .inter) outer s
  | .plain '-' :: .plain '-' :: s => classFrom? (top.operator .diff) outer s
  | .plain '~' :: .plain '~' :: s => classFrom? (top.operator .symmDiff) outer s
  | s =>
    match h : plainItem? s with
    | some (x, r) =>
      have := plainItem?_length h
      classFrom? (top.add x) outer r
    | none => none
termination_by s.length
decreasing_by
  all_goals try simp only [List.length_cons]
  all_goals omega

/-- The class behind its opening bracket and what follows it. -/
def charClass? (s : List Sign) : Option (Nested × List Sign) :=
  classFrom? (openClass s).1 [] (openClass s).2

end StructEdit.Pattern
