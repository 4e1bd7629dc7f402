import StructEdit.Cursor.Sexp

/-!
# Moving in and out of lists

These motions either arrive or leave the cursor where it was, so they return an
optional cursor.
-/
namespace StructEdit.Cursor

/-- The closing bracket of the list around the cursor. -/
def forwardList? (c : Cursor) : Option Cursor :=
  let d := c.forwardSexps true
  if d.kind = .closing then some d else none

/-- The place after the opening bracket of the list around the cursor. -/
def backwardList? (c : Cursor) : Option Cursor :=
  let d := c.backwardSexps false
  if d.prevKind = .opening then some d else none

/-- Into the list that comes next. -/
def downList? (c : Cursor) : Option Cursor :=
  let d := c.forwardSpace true
  if d.kind = .opening then some d.next else none

/-- Out of the list whose closing bracket comes next. -/
def upList? (c : Cursor) : Option Cursor :=
  let d := c.forwardSpace true
  if d.kind = .closing then some d.next else none

/-- Back out of the list whose opening bracket comes right before. -/
def backwardUpList? (c : Cursor) : Option Cursor :=
  let d := c.backwardSpace true
  if d.prevKind = .opening then some d.prev else none

theorem backwardUpList?_lt {c d : Cursor} (h : c.backwardUpList? = some d) :
    d.before.length < c.before.length := by
  simp only [backwardUpList?] at h
  split at h
  · rename_i hk
    obtain rfl := Option.some.inj h
    refine Nat.lt_of_lt_of_le ?_ (before_spaceBehind_le true c.here c.after c.before)
    unfold backwardSpace at hk ⊢
    cases hb : (spaceBehind true c.here c.after c.before).before with
    | nil => simp [prevKind, kindBefore, hb] at hk
    | cons p before => simp [prev, prev?, hb]
  · simp at h

end StructEdit.Cursor
