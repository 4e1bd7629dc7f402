import StructEdit.Cursor.Space

/-!
# Moving over expressions

One expression is an atom, a string or a list. `forwardSexp` and `backwardSexp`
move over one of them, and report whether they found it. A bracket met on the way
changes the depth, and an expression ends only at depth zero. Marks and junk
belong to no expression and are passed by.

Both take a flag for comments. When it is set, comments are passed by like
blanks. Otherwise a comment counts as an expression, and forwards its line end
goes with it.

A motion that finds an expression has moved. That is why a motion can be repeated
until it finds no more, as `forwardSexps` and `backwardSexps` do.
-/
namespace StructEdit

structure Landing where
  found : Bool
  cursor : Cursor
  deriving DecidableEq, Repr

/-- What a token means to a motion over expressions. -/
inductive Role where
  /-- Belongs to no expression, or goes on with one. -/
  | pass
  /-- Enters a list. -/
  | enter
  /-- Leaves a list. -/
  | leave
  /-- Ends an expression. -/
  | atom
  /-- A comment that counts as an expression. -/
  | note
  deriving DecidableEq, Repr

/-- The role of a token on the way forward. A string on several lines ends at its last part. -/
def Kind.roleAhead (comments : Bool) : Kind → Role
  | .opening => .enter
  | .closing => .leave
  | .symbol | .literal | .keyword | .string | .stringEnd => .atom
  | .comment => if comments then .pass else .note
  | .blank | .lineEnd | .mark | .junk | .stringStart | .stringMiddle => .pass

/-- The role of a token on the way back. A string on several lines ends at its first part. -/
def Kind.roleBehind (comments : Bool) : Kind → Role
  | .closing => .enter
  | .opening => .leave
  | .symbol | .literal | .keyword | .string | .stringStart => .atom
  | .comment => if comments then .pass else .note
  | .blank | .lineEnd | .mark | .junk | .stringMiddle | .stringEnd => .pass

namespace Cursor

/-- Looks for the end of an expression, with `depth` lists open. -/
def sexpAhead (comments : Bool) (depth : Nat) (before : List Placed) (here : Placed) :
    List Placed → Landing
  | [] => ⟨false, ⟨before, here, []⟩⟩
  | n :: after =>
    match here.kind.roleAhead comments with
    | .pass => sexpAhead comments depth (here :: before) n after
    | .enter => sexpAhead comments (depth + 1) (here :: before) n after
    | .leave =>
      if depth ≤ 1 then ⟨true, ⟨here :: before, n, after⟩⟩
      else sexpAhead comments (depth - 1) (here :: before) n after
    | .atom =>
      if depth = 0 then ⟨true, ⟨here :: before, n, after⟩⟩
      else sexpAhead comments depth (here :: before) n after
    | .note =>
      if depth = 0 then ⟨true, next ⟨here :: before, n, after⟩⟩
      else sexpAhead comments depth (here :: before) n after

/-- Looks for the start of an expression, with `depth` lists open. -/
def sexpBehind (comments : Bool) (depth : Nat) (here : Placed) (after : List Placed) :
    List Placed → Landing
  | [] => ⟨false, ⟨[], here, after⟩⟩
  | p :: before =>
    match p.kind.roleBehind comments with
    | .pass => sexpBehind comments depth p (here :: after) before
    | .enter => sexpBehind comments (depth + 1) p (here :: after) before
    | .leave =>
      if depth ≤ 1 then ⟨true, ⟨before, p, here :: after⟩⟩
      else sexpBehind comments (depth - 1) p (here :: after) before
    | .atom | .note =>
      if depth = 0 then ⟨true, ⟨before, p, here :: after⟩⟩
      else sexpBehind comments depth p (here :: after) before

/-- Moves over the next expression. In front of a closing bracket there is none, and only blanks
are skipped. -/
def forwardSexp (comments : Bool) (c : Cursor) : Landing :=
  let d := c.forwardSpace comments
  if d.kind = .closing then ⟨false, d⟩ else sexpAhead comments 0 d.before d.here d.after

/-- Moves back over an expression. Behind an opening bracket there is none, and only blanks are
skipped. -/
def backwardSexp (comments : Bool) (c : Cursor) : Landing :=
  let d := c.backwardSpace comments
  if d.prevKind = .opening then ⟨false, d⟩ else sexpBehind comments 0 d.here d.after d.before

theorem after_next_le (c : Cursor) : c.next.after.length ≤ c.after.length := by
  obtain ⟨before, here, after⟩ := c
  cases after <;> simp [next, next?]

theorem sexpAhead_found_lt {comments : Bool} {depth : Nat} {before : List Placed} {here : Placed}
    {after : List Placed} (h : (sexpAhead comments depth before here after).found = true) :
    (sexpAhead comments depth before here after).cursor.after.length < after.length := by
  fun_induction sexpAhead comments depth before here after with
  | case1 => simp at h
  | case2 _ _ _ _ _ _ ih => exact Nat.lt_succ_of_lt (ih h)
  | case3 _ _ _ _ _ _ ih => exact Nat.lt_succ_of_lt (ih h)
  | case4 => exact Nat.lt_succ_self _
  | case5 _ _ _ _ _ _ _ ih => exact Nat.lt_succ_of_lt (ih h)
  | case6 => exact Nat.lt_succ_self _
  | case7 _ _ _ _ _ _ _ ih => exact Nat.lt_succ_of_lt (ih h)
  | case8 => exact Nat.lt_succ_of_le (after_next_le _)
  | case9 _ _ _ _ _ _ _ ih => exact Nat.lt_succ_of_lt (ih h)

theorem sexpBehind_found_lt {comments : Bool} {depth : Nat} {here : Placed}
    {after before : List Placed}
    (h : (sexpBehind comments depth here after before).found = true) :
    (sexpBehind comments depth here after before).cursor.before.length < before.length := by
  fun_induction sexpBehind comments depth here after before with
  | case1 => simp at h
  | case2 _ _ _ _ _ _ ih => exact Nat.lt_succ_of_lt (ih h)
  | case3 _ _ _ _ _ _ ih => exact Nat.lt_succ_of_lt (ih h)
  | case4 => exact Nat.lt_succ_self _
  | case5 _ _ _ _ _ _ _ ih => exact Nat.lt_succ_of_lt (ih h)
  | case6 => exact Nat.lt_succ_self _
  | case7 _ _ _ _ _ _ _ ih => exact Nat.lt_succ_of_lt (ih h)
  | case8 => exact Nat.lt_succ_self _
  | case9 _ _ _ _ _ _ _ ih => exact Nat.lt_succ_of_lt (ih h)

theorem before_sexpBehind_le (comments : Bool) (depth : Nat) (here : Placed)
    (after before : List Placed) :
    (sexpBehind comments depth here after before).cursor.before.length ≤ before.length := by
  fun_induction sexpBehind comments depth here after before with
  | case1 => exact Nat.le_refl _
  | case2 _ _ _ _ _ _ ih => exact Nat.le_succ_of_le ih
  | case3 _ _ _ _ _ _ ih => exact Nat.le_succ_of_le ih
  | case4 => exact Nat.le_succ _
  | case5 _ _ _ _ _ _ _ ih => exact Nat.le_succ_of_le ih
  | case6 => exact Nat.le_succ _
  | case7 _ _ _ _ _ _ _ ih => exact Nat.le_succ_of_le ih
  | case8 => exact Nat.le_succ _
  | case9 _ _ _ _ _ _ _ ih => exact Nat.le_succ_of_le ih

theorem before_backwardSexp_le (comments : Bool) (c : Cursor) :
    (c.backwardSexp comments).cursor.before.length ≤ c.before.length := by
  simp only [backwardSexp]
  split
  · exact before_spaceBehind_le _ _ _ _
  · exact Nat.le_trans (before_sexpBehind_le _ _ _ _ _) (before_spaceBehind_le _ _ _ _)

theorem forwardSexp_found_lt {comments : Bool} {c : Cursor}
    (h : (c.forwardSexp comments).found = true) :
    (c.forwardSexp comments).cursor.after.length < c.after.length := by
  simp only [forwardSexp] at h ⊢
  split at h
  · simp at h
  · rename_i hk
    simp only [hk, ↓reduceIte]
    exact Nat.lt_of_lt_of_le (sexpAhead_found_lt h) (after_spaceAhead_le _ _ _ _)

theorem backwardSexp_found_lt {comments : Bool} {c : Cursor}
    (h : (c.backwardSexp comments).found = true) :
    (c.backwardSexp comments).cursor.before.length < c.before.length := by
  simp only [backwardSexp] at h ⊢
  split at h
  · simp at h
  · rename_i hk
    simp only [hk, ↓reduceIte]
    exact Nat.lt_of_lt_of_le (sexpBehind_found_lt h) (before_spaceBehind_le _ _ _ _)

/-- Moves over expressions until there are no more. -/
def forwardSexps (comments : Bool) (c : Cursor) : Cursor :=
  if h : (c.forwardSexp comments).found = true then
    have := forwardSexp_found_lt h
    forwardSexps comments (c.forwardSexp comments).cursor
  else (c.forwardSexp comments).cursor
termination_by c.after.length

/-- Moves back over expressions until there are no more. -/
def backwardSexps (comments : Bool) (c : Cursor) : Cursor :=
  if h : (c.backwardSexp comments).found = true then
    have := backwardSexp_found_lt h
    backwardSexps comments (c.backwardSexp comments).cursor
  else (c.backwardSexp comments).cursor
termination_by c.before.length

end Cursor
end StructEdit
