import StructEdit.Bracket
import StructEdit.Proofs.Text.Breaks

/-!
# Reading a text for its brackets

A reader that goes through a text from left to right has to know where it is, in code, in a
comment, in a string, or behind a backslash in a string. Only in code does a bracket
count: it is a fence. The fences of a text, nested from no open list on, tell which
lists are open at its end, the innermost first.

Two facts about nesting carry everything else. Lists that are open further out make no
difference to fences that leave them alone. And fences that close exactly some lists can be
read with other open lists only when those come first.
-/
namespace StructEdit

inductive Place where
  | code
  | comment
  | string
  /-- Behind a backslash in a string. -/
  | escape
  deriving DecidableEq, Repr

/-- A bracket that counts. -/
inductive Fence where
  | opens (b : Bracket)
  | closes (b : Bracket)
  deriving DecidableEq, Repr

/-- The bracket that a character is. -/
def Fence.ofChar? : Char → Option Fence
  | '(' => some (.opens .round)
  | '[' => some (.opens .square)
  | '\x7b' => some (.opens .curly)
  | ')' => some (.closes .round)
  | ']' => some (.closes .square)
  | '\x7d' => some (.closes .curly)
  | _ => none

namespace Place

/-- The place behind a character. A line break ends a comment, and nothing that a backslash at the end
of a line could stand for. -/
def step : Place → Char → Place
  | .code, c => if c = '"' then .string else if c = ';' then .comment else .code
  | .comment, c => if c = '\n' then .code else .comment
  | .string, c => if c = '"' then .code else if c = '\\' then .escape else .string
  | .escape, _ => .string

/-- The place behind a text. -/
def after (p : Place) : Text → Place
  | [] => p
  | c :: s => (p.step c).after s

/-- The brackets of a text that stand in code. -/
def fences (p : Place) : Text → List Fence
  | [] => []
  | c :: s => (if p = .code then (Fence.ofChar? c).toList else []) ++ (p.step c).fences s

/-- A text may end here: not in a string. -/
def isFinal : Place → Bool
  | .code | .comment => true
  | .string | .escape => false

@[simp] theorem after_nil (p : Place) : p.after [] = p := rfl

@[simp] theorem fences_nil (p : Place) : p.fences [] = [] := rfl

@[simp] theorem after_append (p : Place) (s t : Text) :
    p.after (s ++ t) = (p.after s).after t := by
  induction s generalizing p with
  | nil => rfl
  | cons c s ih => exact ih (p.step c)

@[simp] theorem fences_append (p : Place) (s t : Text) :
    p.fences (s ++ t) = p.fences s ++ (p.after s).fences t := by
  induction s generalizing p with
  | nil => rfl
  | cons c s ih =>
    rw [List.cons_append, fences, fences, ih, List.append_assoc]
    rfl

theorem fences_eq_nil {p : Place} {s t : Text} (h : p.fences (s ++ t) = []) : p.fences s = [] := by
  rw [fences_append] at h
  exact (List.append_eq_nil_iff.1 h).1

/-- A carriage return before a line break makes no difference. -/
theorem after_return (p : Place) : (p.step '\r').step '\n' = p.step '\n' := by
  cases p <;> decide

theorem fences_return (p : Place) (s : Text) :
    p.fences ('\r' :: '\n' :: s) = p.fences ('\n' :: s) := by
  rw [fences, fences, fences, after_return]
  cases p <;> simp [Fence.ofChar?]

theorem after_normalizeBreaks (p : Place) (s : Text) : p.after (Text.normalizeBreaks s) = p.after s := by
  fun_induction Text.normalizeBreaks s generalizing p with
  | case1 => rfl
  | case2 s ih =>
    rw [after, ih, after, after, after_return]
  | case3 c s _ ih => exact ih (p.step c)

theorem fences_normalizeBreaks (p : Place) (s : Text) :
    p.fences (Text.normalizeBreaks s) = p.fences s := by
  fun_induction Text.normalizeBreaks s generalizing p with
  | case1 => rfl
  | case2 s ih => rw [fences_return, fences, fences, ih]
  | case3 c s _ ih => rw [fences, fences, ih]

end Place

/-! ## Nesting -/

/-- The open lists behind the fences, if each of them that closes a list closes the innermost. -/
def nest (lists : List Bracket) : List Fence → Option (List Bracket)
  | [] => some lists
  | .opens b :: fs => nest (b :: lists) fs
  | .closes b :: fs =>
    match lists with
    | [] => none
    | x :: xs => if x = b then nest xs fs else none

@[simp] theorem nest_nil (lists : List Bracket) : nest lists [] = some lists := rfl

@[simp] theorem nest_opens (lists : List Bracket) (b : Bracket) (fs : List Fence) :
    nest lists (.opens b :: fs) = nest (b :: lists) fs := rfl

@[simp] theorem nest_closes_cons (b : Bracket) (lists : List Bracket) (fs : List Fence) :
    nest (b :: lists) (.closes b :: fs) = nest lists fs := by
  simp [nest]

theorem nest_closes_eq_some {lists m : List Bracket} {b : Bracket} {fs : List Fence} :
    nest lists (.closes b :: fs) = some m ↔ ∃ rest, lists = b :: rest ∧ nest rest fs = some m := by
  cases lists with
  | nil => simp [nest]
  | cons x xs =>
    simp only [nest]
    split
    · rename_i h
      subst h
      simp
    · rename_i h
      simp [h]

theorem nest_append (lists : List Bracket) (fs gs : List Fence) :
    nest lists (fs ++ gs) = (nest lists fs).bind fun m => nest m gs := by
  induction fs generalizing lists with
  | nil => rfl
  | cons f fs ih =>
    cases f with
    | opens b => exact ih (b :: lists)
    | closes b =>
      cases lists with
      | nil => rfl
      | cons x xs =>
        simp only [List.cons_append, nest]
        split
        · exact ih xs
        · rfl

theorem nest_append_eq_some {lists m : List Bracket} {fs gs : List Fence} :
    nest lists (fs ++ gs) = some m ↔ ∃ n, nest lists fs = some n ∧ nest n gs = some m := by
  rw [nest_append, Option.bind_eq_some_iff]

/-- Lists further out make no difference. -/
theorem nest_frame {l m : List Bracket} {fs : List Fence} (h : nest l fs = some m)
    (outer : List Bracket) : nest (l ++ outer) fs = some (m ++ outer) := by
  induction fs generalizing l with
  | nil =>
    obtain rfl : l = m := Option.some.inj h
    rfl
  | cons f fs ih =>
    cases f with
    | opens b => exact ih (l := b :: l) h
    | closes b =>
      obtain ⟨rest, rfl, hrest⟩ := nest_closes_eq_some.1 h
      rw [List.cons_append, nest_closes_cons]
      exact ih hrest

theorem nest_of_opens {m : List Bracket} {fs : List Fence} (h : nest [] fs = some m)
    (outer : List Bracket) : nest outer fs = some (m ++ outer) := nest_frame h outer

/-- Fences that close exactly the lists `l` need them. -/
theorem nest_of_closes {l : List Bracket} {fs : List Fence} (h : nest l fs = some [])
    {m n : List Bracket} : nest m fs = some n ↔ m = l ++ n := by
  constructor
  · intro hm
    induction fs generalizing l m with
    | nil =>
      obtain rfl : l = [] := Option.some.inj h
      exact Option.some.inj hm
    | cons f fs ih =>
      cases f with
      | opens b =>
        have := ih (l := b :: l) (m := b :: m) h hm
        exact List.cons.inj this |>.2
      | closes b =>
        obtain ⟨l', rfl, hl⟩ := nest_closes_eq_some.1 h
        obtain ⟨m', rfl, hm'⟩ := nest_closes_eq_some.1 hm
        rw [ih hl hm', List.cons_append]
  · rintro rfl
    exact nest_frame h n

end StructEdit
