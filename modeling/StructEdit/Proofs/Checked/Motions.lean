import StructEdit.Proofs.Checked.Addresses

/-!
# Checked motions

The motions over blanks, expressions and lists as loops over addresses. A loop looks at one token
after the other, and a loop that came to no end would have no value either. The loops skip blanks
again at every turn, and run through the parts of a string in a loop of their own. The motions of
the library look at each token once and pass by such tokens, which comes to the same.
-/
namespace StructEdit
namespace Address
open Checked

/-- Skips blanks and line ends, and comments too when `comments` is set. -/
def forwardSpace (b : Buffer) (comments : Bool) (a : Address) : Option Address := do
  if ← atEnd b a then return a
  else
    let t ← token b a
    if t.kind.isSkipped comments then
      let n ← next b a
      n |>.forwardSpace b comments
    else return a
partial_fixpoint

/-- Skips blanks and line ends backwards, and comments too when `comments` is set. Steps on again
where it would stop between a comment and the end of its line. -/
def backwardSpace (b : Buffer) (comments : Bool) (a : Address) : Option Address := do
  if atStart a then return a
  else
    let t ← prevToken b a
    if t.kind = .blank then
      let p ← prev b a
      p |>.backwardSpace b comments
    else if t.kind.isSkipped comments then
      let p ← prev b a
      let u ← prevToken b p
      if u.kind = .comment then next b p else p |>.backwardSpace b comments
    else return a
partial_fixpoint

/-- From a part of a string to the token behind its parts and the line ends between them. -/
def stringAhead (b : Buffer) (a : Address) : Option Address := do
  let n ← next b a
  if ← atEnd b n then return n
  else
    let t ← token b n
    if t.kind = .stringMiddle ∨ t.kind = .lineEnd then n |>.stringAhead b else return n
partial_fixpoint

/-- Looks for the end of an expression, with `depth` lists open. A comment ends with its line. -/
def sexpAhead (b : Buffer) (comments : Bool) (depth : Int) (a : Address) :
    Option (Bool × Address) := do
  if ← atEnd b a then return (false, a)
  else
    let a ← forwardSpace b comments a
    let t ← token b a
    if t.kind = .stringStart ∨ t.kind = .stringMiddle then
      let n ← stringAhead b a
      n |>.sexpAhead b comments depth
    else
      let n ← next b a
      match t.kind.roleAhead comments with
      | .pass => n |>.sexpAhead b comments depth
      | .enter => n |>.sexpAhead b comments (depth + 1)
      | .leave => if depth - 1 ≤ 0 then return (true, n) else n |>.sexpAhead b comments (depth - 1)
      | .atom => if depth ≤ 0 then return (true, n) else n |>.sexpAhead b comments depth
      | .note =>
        let n ← next b n
        if depth ≤ 0 then return (true, n) else n |>.sexpAhead b comments depth
partial_fixpoint

/-- From behind a part of a string to the front of the parts before it. -/
def stringBehind (b : Buffer) (a : Address) : Option Address := do
  let p ← prev b a
  if atStart p then return p
  else
    let t ← prevToken b p
    if t.kind = .stringMiddle then p |>.stringBehind b else return p
partial_fixpoint

/-- Looks for the start of an expression, and skips comments like blanks when `comments` is set. A
comment that is met all the same is an expression. -/
def sexpBack (b : Buffer) (comments : Bool) (depth : Int) (a : Address) :
    Option (Bool × Address) := do
  if atStart a then return (false, a)
  else
    let a ← backwardSpace b comments a
    let t ← prevToken b a
    if t.kind = .stringMiddle ∨ t.kind = .stringEnd then
      let p ← stringBehind b a
      p |>.sexpBack b comments depth
    else
      let p ← prev b a
      match t.kind.roleBehind false with
      | .pass => p |>.sexpBack b comments depth
      | .enter => p |>.sexpBack b comments (depth + 1)
      | .leave => if depth - 1 ≤ 0 then return (true, p) else p |>.sexpBack b comments (depth - 1)
      | .atom | .note => if depth ≤ 0 then return (true, p) else p |>.sexpBack b comments depth
partial_fixpoint

def forwardSexp (b : Buffer) (comments : Bool) (a : Address) : Option (Bool × Address) := do
  let a ← forwardSpace b comments a
  let t ← token b a
  if t.kind = .closing then return (false, a) else sexpAhead b comments 0 a

/-- Back over an expression, with comments skipped like blanks when `comments` is set. -/
def backSexp (b : Buffer) (comments : Bool) (a : Address) : Option (Bool × Address) := do
  let a ← backwardSpace b comments a
  let t ← prevToken b a
  if t.kind = .opening then return (false, a) else sexpBack b comments 0 a

def forwardSexps (b : Buffer) (comments : Bool) (a : Address) : Option Address := do
  let r ← forwardSexp b comments a
  if r.1 then r.2 |>.forwardSexps b comments else return r.2
partial_fixpoint

def backwardSexps (b : Buffer) (a : Address) : Option Address := do
  let r ← backSexp b false a
  if r.1 then r.2 |>.backwardSexps b else return r.2
partial_fixpoint

end Address

namespace Checked
open Address

/-- The closing bracket of the list around an address, if there is one. -/
def forwardList (b : Buffer) (a : Address) : Option (Option Address) := do
  let e ← forwardSexps b true a
  let t ← token b e
  return if t.kind = .closing then some e else none

/-- The place after the opening bracket of the list around an address, if there is one. -/
def backwardList (b : Buffer) (a : Address) : Option (Option Address) := do
  let o ← backwardSexps b a
  let t ← prevToken b o
  return if t.kind = .opening then some o else none

/-- Back out of the list whose opening bracket comes right before, if there is one. -/
def backwardUpList (b : Buffer) (a : Address) : Option (Option Address) := do
  let o ← backwardSpace b true a
  let t ← prevToken b o
  if t.kind = .opening then
    let p ← prev b o
    return some p
  else return none

/-- On a part of a string, or on a line end inside one. -/
def withinString (b : Buffer) (a : Address) : Option Bool := do
  let t ← token b a
  if t.kind.isString then return true
  else if t.kind = .lineEnd then
    let u ← prevToken b a
    return u.kind == .stringMiddle || u.kind == .stringStart
  else return false

/-! ## Blanks -/

variable {b : Buffer} {c : Cursor}

theorem forwardSpace_eq (h : c.In b) (comments : Bool) :
    forwardSpace b comments c.address = some (c.forwardSpace comments).address := by
  obtain ⟨before, here, after⟩ := c
  induction after generalizing before here with
  | nil =>
    rw [forwardSpace, atEnd_eq h]
    rfl
  | cons n after ih =>
    have hnext := next_eq h
    rw [forwardSpace, atEnd_eq h, token_eq h, hnext]
    simp only [Cursor.atEnd, List.isEmpty_cons, Option.bind_eq_bind, Option.bind_some,
      Bool.false_eq_true, ↓reduceIte]
    by_cases hskip : here.kind.isSkipped comments = true
    · have hstep : Cursor.forwardSpace comments ⟨before, here, n :: after⟩ =
          Cursor.forwardSpace comments ⟨here :: before, n, after⟩ := by
        simp [Cursor.forwardSpace, Cursor.spaceAhead, hskip]
      rw [hstep, ← ih (here :: before) n h.next]
      exact if_pos hskip
    · have hstop : Cursor.forwardSpace comments ⟨before, here, n :: after⟩ =
          ⟨before, here, n :: after⟩ := by
        simp [Cursor.forwardSpace, Cursor.spaceAhead, hskip]
      rw [hstop]
      exact if_neg hskip

theorem backwardSpace_eq (h : c.In b) (comments : Bool) :
    backwardSpace b comments c.address = some (c.backwardSpace comments).address := by
  obtain ⟨before, here, after⟩ := c
  induction before generalizing here after with
  | nil =>
    rw [backwardSpace, atStart_eq h]
    rfl
  | cons p before ih =>
    have hprev : Cursor.In ⟨before, p, here :: after⟩ b := h.prev
    have hback : prev b (Cursor.address ⟨p :: before, here, after⟩) =
        some (Cursor.address ⟨before, p, here :: after⟩) := prev_eq h
    have hagain : next b (Cursor.address ⟨before, p, here :: after⟩) =
        some (Cursor.address ⟨p :: before, here, after⟩) := next_eq hprev
    have hkind : (Cursor.prevToken ⟨p :: before, here, after⟩).kind = p.kind := rfl
    rw [backwardSpace, atStart_eq h, prevToken_eq h, hback]
    simp only [Cursor.atStart, List.isEmpty_cons, Option.bind_eq_bind, Option.bind_some,
      Bool.false_eq_true, ↓reduceIte, hkind, prevToken_eq hprev, hagain, Cursor.kind_prevToken,
      ih p (here :: after) hprev, Cursor.backwardSpace, Cursor.spaceBehind, Cursor.prevKind]
    split
    · rename_i hblank
      rw [if_pos (Or.inl hblank)]
    · rename_i hblank
      simp only [hblank, false_or]
      by_cases hskip : p.kind.isSkipped comments = true
      · by_cases hcomment : kindBefore before = .comment
        · simp [hskip, hcomment]
        · simp [hskip, hcomment]
      · simp [hskip]

/-! ## Expressions ahead -/

end Checked

namespace Cursor

/-- Looks for the end of an expression from a cursor on. -/
def sexpFrom (comments : Bool) (depth : Nat) (c : Cursor) : Landing :=
  sexpAhead comments depth c.before c.here c.after

/-- Looks for the start of an expression from a cursor back. -/
def sexpTo (comments : Bool) (depth : Nat) (c : Cursor) : Landing :=
  sexpBehind comments depth c.here c.after c.before

variable {b : Buffer} {c : Cursor}

theorem sexpFrom_next {comments : Bool} (h : c.kind.roleAhead comments = .pass) (depth : Nat) :
    c.sexpFrom comments depth = c.next.sexpFrom comments depth := by
  obtain ⟨before, here, after⟩ := c
  cases after with
  | nil => rfl
  | cons n after =>
    have hrole : here.kind.roleAhead comments = .pass := h
    simp [sexpFrom, sexpAhead, hrole, next, next?]

theorem after_next_lt (h : c.after ≠ []) : c.next.after.length < c.after.length := by
  obtain ⟨before, here, after⟩ := c
  cases after with
  | nil => exact absurd rfl h
  | cons n after => exact Nat.lt_succ_self after.length

/-- One token of the way ahead. -/
theorem sexpFrom_step (h : c.after ≠ []) (comments : Bool) (depth : Nat) :
    c.sexpFrom comments depth =
      match c.kind.roleAhead comments with
      | .pass => c.next.sexpFrom comments depth
      | .enter => c.next.sexpFrom comments (depth + 1)
      | .leave => if depth ≤ 1 then ⟨true, c.next⟩ else c.next.sexpFrom comments (depth - 1)
      | .atom => if depth = 0 then ⟨true, c.next⟩ else c.next.sexpFrom comments depth
      | .note => if depth = 0 then ⟨true, c.next.next⟩ else c.next.sexpFrom comments depth := by
  obtain ⟨before, here, after⟩ := c
  cases after with
  | nil => exact absurd rfl h
  | cons n after => rfl

theorem roleAhead_of_skipped {comments : Bool} {k : Kind} (h : k.isSkipped comments = true) :
    k.roleAhead comments = .pass := by
  cases k <;> simp_all [Kind.isSkipped, Kind.roleAhead]

theorem sexpFrom_forwardSpace (comments : Bool) (depth : Nat) (c : Cursor) :
    (c.forwardSpace comments).sexpFrom comments depth = c.sexpFrom comments depth := by
  obtain ⟨before, here, after⟩ := c
  induction after generalizing before here with
  | nil => rfl
  | cons n after ih =>
    by_cases hskip : here.kind.isSkipped comments = true
    · have hpass :=
        sexpFrom_next (c := ⟨before, here, n :: after⟩) (roleAhead_of_skipped hskip) depth
      have hstep : forwardSpace comments ⟨before, here, n :: after⟩ =
          forwardSpace comments ⟨here :: before, n, after⟩ := by
        simp [forwardSpace, spaceAhead, hskip]
      rw [hstep, hpass]
      exact ih (here :: before) n
    · simp [forwardSpace, spaceAhead, hskip]

theorem sexpTo_prev {comments : Bool} (h : c.prevKind.roleBehind comments = .pass) (depth : Nat) :
    c.sexpTo comments depth = c.prev.sexpTo comments depth := by
  obtain ⟨before, here, after⟩ := c
  cases before with
  | nil => rfl
  | cons p before =>
    have hrole : p.kind.roleBehind comments = .pass := h
    simp [sexpTo, sexpBehind, hrole, prev, prev?]

theorem before_prev_lt (h : c.before ≠ []) : c.prev.before.length < c.before.length := by
  obtain ⟨before, here, after⟩ := c
  cases before with
  | nil => exact absurd rfl h
  | cons p before => exact Nat.lt_succ_self before.length

/-- One token of the way back. -/
theorem sexpTo_step (h : c.before ≠ []) (comments : Bool) (depth : Nat) :
    c.sexpTo comments depth =
      match c.prevKind.roleBehind comments with
      | .pass => c.prev.sexpTo comments depth
      | .enter => c.prev.sexpTo comments (depth + 1)
      | .leave => if depth ≤ 1 then ⟨true, c.prev⟩ else c.prev.sexpTo comments (depth - 1)
      | .atom | .note => if depth = 0 then ⟨true, c.prev⟩ else c.prev.sexpTo comments depth := by
  obtain ⟨before, here, after⟩ := c
  cases before with
  | nil => exact absurd rfl h
  | cons p before => rfl

theorem roleBehind_of_skipped {comments : Bool} {k : Kind} (h : k.isSkipped comments = true) :
    k.roleBehind comments = .pass := by
  cases k <;> simp_all [Kind.isSkipped, Kind.roleBehind]

theorem sexpTo_backwardSpace (comments : Bool) (depth : Nat) (c : Cursor) :
    (c.backwardSpace comments).sexpTo comments depth = c.sexpTo comments depth := by
  obtain ⟨before, here, after⟩ := c
  induction before generalizing here after with
  | nil => rfl
  | cons p before ih =>
    by_cases hskip : p.kind = .blank ∨ (p.kind.isSkipped comments ∧ kindBefore before ≠ .comment)
    · have hpass : p.kind.roleBehind comments = .pass := by
        rcases hskip with hblank | ⟨hskip, -⟩
        · rw [hblank]
          rfl
        · exact roleBehind_of_skipped hskip
      have hstep : backwardSpace comments ⟨p :: before, here, after⟩ =
          backwardSpace comments ⟨before, p, here :: after⟩ := by
        simp only [backwardSpace, spaceBehind, if_pos hskip]
      rw [hstep, sexpTo_prev (c := ⟨p :: before, here, after⟩) hpass depth]
      exact ih p (here :: after)
    · simp only [backwardSpace, spaceBehind, if_neg hskip]

/-- In lines without breaks, a comment is followed by the end of its line. -/
theorem In.lineEnd_of_comment (h : c.In b) (hu : b.Unbroken) (hk : c.kind = .comment) :
    c.next.kind = .lineEnd := by
  obtain ⟨above, l, below, left, right, hs⟩ := h.seated
  have hl : '\n' ∉ l.text := hu l (by simp [hs.lines])
  have hphase := (l.scannedTokens.phase hl above.length (extent above) 0).1
  rw [hs.tokens, placeTokens_append, phase_append] at hphase
  obtain ⟨-, -, hright⟩ := hphase
  cases right with
  | nil =>
    have hlast := l.scannedTokens.kind_last c.here.token (by simp [hs.tokens])
    exact absurd (hk.symm.trans hlast) (by simp)
  | cons t right =>
    have hpass : ∀ p : Place, p.pass c.here.token.kind = .comment := by
      intro p
      rw [show c.here.token.kind = .comment from hk]
      cases p <;> rfl
    have hadmits := hright.1.admits
    simp only [Placed.kind, hpass, Place.admits, beq_iff_eq] at hadmits
    have hafter := hs.after
    rw [placeTokens, List.cons_append] at hafter
    rw [Cursor.next, Cursor.next?, hafter]
    exact hadmits

/-- Behind comments, a cursor comes to rest only at a line end, never right behind the comment. -/
theorem In.prevKind_backwardSpace (h : c.In b) (hu : b.Unbroken) :
    (c.backwardSpace true).prevKind ≠ .comment := by
  obtain ⟨before, here, after⟩ := c
  induction before generalizing here after with
  | nil => simp [Cursor.backwardSpace, spaceBehind, prevKind, kindBefore]
  | cons p before ih =>
    have hprev : In ⟨before, p, here :: after⟩ b := h.prev
    simp only [Cursor.backwardSpace, spaceBehind]
    split
    · exact ih p (here :: after) hprev
    · rename_i hstop
      intro hcomment
      have hp : p.kind = .comment := hcomment
      have hk : kindBefore before = .comment :=
        Decidable.byContradiction fun hne => hstop (Or.inr ⟨by simp [hp, Kind.isSkipped], hne⟩)
      cases before with
      | nil => simp [kindBefore] at hk
      | cons q before =>
        have hq : In ⟨before, q, p :: here :: after⟩ b := hprev.prev
        have hline : p.kind = .lineEnd := hq.lineEnd_of_comment hu hk
        rw [hp] at hline
        simp at hline

end Cursor

namespace Checked
open Address

variable {b : Buffer} {c : Cursor}

/-- Where a motion ended, with the address of its cursor. -/
def arrival (r : Landing) : Bool × Address := (r.found, r.cursor.address)

theorem stringAhead_step (h : c.In b) : stringAhead b c.address =
    if c.next.atEnd then some c.next.address
    else if c.next.kind = .stringMiddle ∨ c.next.kind = .lineEnd then stringAhead b c.next.address
    else some c.next.address := by
  rw [stringAhead]
  simp only [next_eq h, atEnd_eq h.next, token_eq h.next, Option.bind_eq_bind, Option.bind_some]
  rfl

/-- The run through a string passes tokens that end no expression. -/
theorem exists_stringAhead (h : c.In b) {comments : Bool}
    (hrole : c.kind.roleAhead comments = .pass) :
    ∃ d : Cursor, stringAhead b c.address = some d.address ∧ d.In b ∧
      d.after.length ≤ c.after.length - 1 ∧
      ∀ depth, c.sexpFrom comments depth = d.sexpFrom comments depth := by
  obtain ⟨before, here, after⟩ := c
  induction after generalizing before here with
  | nil =>
    refine ⟨⟨before, here, []⟩, ?_, h, Nat.le_refl _, fun _ => rfl⟩
    rw [stringAhead_step h]
    rfl
  | cons n after ih =>
    have hin : Cursor.In ⟨here :: before, n, after⟩ b := h.next
    have hpass : ∀ depth, Cursor.sexpFrom comments depth ⟨before, here, n :: after⟩ =
        Cursor.sexpFrom comments depth ⟨here :: before, n, after⟩ :=
      fun depth => Cursor.sexpFrom_next hrole depth
    have hstep : stringAhead b (Cursor.address ⟨before, here, n :: after⟩) =
        if after.isEmpty then some (Cursor.address ⟨here :: before, n, after⟩)
        else if n.kind = .stringMiddle ∨ n.kind = .lineEnd then
          stringAhead b (Cursor.address ⟨here :: before, n, after⟩)
        else some (Cursor.address ⟨here :: before, n, after⟩) := stringAhead_step h
    rw [hstep]
    by_cases hend : after.isEmpty
    · exact ⟨_, if_pos hend, hin, Nat.le_refl _, hpass⟩
    · rw [if_neg hend]
      by_cases hmore : n.kind = .stringMiddle ∨ n.kind = .lineEnd
      · have hrole' : n.kind.roleAhead comments = .pass := by
          rcases hmore with hk | hk <;> rw [hk] <;> rfl
        obtain ⟨d, hd, hdin, hle, heq⟩ := ih (here :: before) n hin hrole'
        have hlength : d.after.length ≤ after.length - 1 := hle
        refine ⟨d, (if_pos hmore).trans hd, hdin, ?_, fun depth => (hpass depth).trans (heq depth)⟩
        exact Nat.le_trans hlength (Nat.sub_le _ _)
      · exact ⟨_, if_neg hmore, hin, Nat.le_refl _, hpass⟩

theorem sexpAhead_step (h : c.In b) (comments : Bool) (depth : Int) :
    sexpAhead b comments depth c.address =
      let d := c.forwardSpace comments
      if c.atEnd then some (false, c.address)
      else if d.kind = .stringStart ∨ d.kind = .stringMiddle then
        (stringAhead b d.address).bind (sexpAhead b comments depth)
      else
        match d.kind.roleAhead comments with
        | .pass => sexpAhead b comments depth d.next.address
        | .enter => sexpAhead b comments (depth + 1) d.next.address
        | .leave =>
          if depth - 1 ≤ 0 then some (true, d.next.address)
          else sexpAhead b comments (depth - 1) d.next.address
        | .atom =>
          if depth ≤ 0 then some (true, d.next.address)
          else sexpAhead b comments depth d.next.address
        | .note =>
          if depth ≤ 0 then some (true, d.next.next.address)
          else sexpAhead b comments depth d.next.next.address := by
  have hd := h.forwardSpace comments
  rw [sexpAhead]
  simp only [atEnd_eq h, forwardSpace_eq h, token_eq hd, next_eq hd, next_eq hd.next,
    Option.bind_eq_bind, Option.bind_some]
  rfl

/-- At the end there is no expression any more. -/
theorem sexpAhead_of_atEnd (h : c.In b) (hend : c.after = []) (comments : Bool) (depth : Int) :
    sexpAhead b comments depth c.address = some (false, c.address) := by
  rw [sexpAhead_step h]
  exact if_pos (by rw [Cursor.atEnd, hend]; rfl)

/-- One turn of the loop ahead, behind the blanks, when the turns after it do as they should. -/
theorem sexpAhead_turn {comments : Bool} {depth : Nat} (h : c.In b) (hend : c.after ≠ [])
    (hu : comments = true ∨ b.Unbroken)
    (ih : ∀ e : Cursor, e.In b → e.after.length < c.after.length → ∀ k : Nat,
      sexpAhead b comments k e.address = some (arrival (e.sexpFrom comments k))) :
    (match c.kind.roleAhead comments with
      | .pass => sexpAhead b comments depth c.next.address
      | .enter => sexpAhead b comments (depth + 1) c.next.address
      | .leave =>
        if (depth : Int) - 1 ≤ 0 then some (true, c.next.address)
        else sexpAhead b comments (depth - 1) c.next.address
      | .atom =>
        if (depth : Int) ≤ 0 then some (true, c.next.address)
        else sexpAhead b comments depth c.next.address
      | .note =>
        if (depth : Int) ≤ 0 then some (true, c.next.next.address)
        else sexpAhead b comments depth c.next.next.address) =
      some (arrival (c.sexpFrom comments depth)) := by
  have hlt := Cursor.after_next_lt hend
  have hnext := ih c.next h.next hlt
  rw [Cursor.sexpFrom_step hend]
  cases hrole : c.kind.roleAhead comments with
  | pass => exact hnext depth
  | enter => exact hnext (depth + 1)
  | leave =>
    by_cases hdepth : depth ≤ 1
    · simp only [hdepth, show (depth : Int) - 1 ≤ 0 by omega, ↓reduceIte]
      rfl
    · simp only [hdepth, show ¬ (depth : Int) - 1 ≤ 0 by omega, ↓reduceIte]
      rw [show (depth : Int) - 1 = ((depth - 1 : Nat) : Int) by omega]
      exact hnext (depth - 1)
  | atom =>
    by_cases hdepth : depth = 0
    · simp only [hdepth, Int.natCast_zero, Int.le_refl, ↓reduceIte]
      rfl
    · simp only [hdepth, show ¬ (depth : Int) ≤ 0 by omega, ↓reduceIte]
      exact hnext depth
  | note =>
    by_cases hdepth : depth = 0
    · simp only [hdepth, Int.natCast_zero, Int.le_refl, ↓reduceIte]
      rfl
    · obtain ⟨hcomment, hnote⟩ : c.kind = .comment ∧ comments = false := by
        cases hk : c.kind <;> cases comments <;> simp_all [Kind.roleAhead]
      have hline := h.lineEnd_of_comment (hu.resolve_left (by simp [hnote])) hcomment
      have hpass := Cursor.sexpFrom_next
        (show c.next.kind.roleAhead comments = .pass by rw [hline]; rfl) depth
      have hlt' := Nat.lt_of_le_of_lt (Cursor.after_next_le c.next) hlt
      simp only [hdepth, show ¬ (depth : Int) ≤ 0 by omega, ↓reduceIte, hpass]
      exact ih c.next.next h.next.next hlt' depth

theorem sexpAhead_eq {comments : Bool} (h : c.In b) (hu : comments = true ∨ b.Unbroken)
    (depth : Nat) :
    sexpAhead b comments depth c.address = some (arrival (c.sexpFrom comments depth)) := by
  induction hn : c.after.length using Nat.strongRecOn generalizing c depth with
  | ind n ih =>
    subst hn
    have hd := h.forwardSpace comments
    have hle : (c.forwardSpace comments).after.length ≤ c.after.length :=
      Cursor.after_spaceAhead_le comments c.before c.here c.after
    rw [sexpAhead_step h, ← Cursor.sexpFrom_forwardSpace]
    cases hend : c.atEnd with
    | true =>
      obtain ⟨before, here, after⟩ := c
      obtain rfl : after = [] := List.isEmpty_iff.1 hend
      rfl
    | false =>
      simp only [Bool.false_eq_true, ↓reduceIte]
      generalize c.forwardSpace comments = d at hd hle ⊢
      by_cases hstring : d.kind = .stringStart ∨ d.kind = .stringMiddle
      · have hpass : d.kind.roleAhead comments = .pass := by
          rcases hstring with hk | hk <;> rw [hk] <;> rfl
        obtain ⟨e, he, hein, hlen, hsame⟩ := exists_stringAhead hd hpass
        have hpos : 0 < c.after.length := List.length_pos_iff.2 fun hnil => by
          simp [Cursor.atEnd, hnil] at hend
        rw [if_pos hstring, he, Option.bind_some, hsame]
        exact ih e.after.length (by omega) hein depth rfl
      · rw [if_neg hstring]
        by_cases hlast : d.after = []
        · have hkind : d.kind = .lineEnd := hd.kind_last d.here (by rw [hlast]; rfl)
          have hnext : d.next = d := by rw [Cursor.next, Cursor.next?, hlast]; rfl
          have hfrom : d.sexpFrom comments depth = ⟨false, d⟩ := by
            obtain ⟨before, here, after⟩ := d
            obtain rfl : after = [] := hlast
            rfl
          rw [hkind, hnext, hfrom]
          exact sexpAhead_of_atEnd hd hlast comments depth
        · exact sexpAhead_turn hd hlast hu fun e he hlt k => ih _ (by omega) he k rfl

/-! ## Expressions behind -/

theorem stringBehind_step (h : c.In b) : stringBehind b c.address =
    if c.prev.atStart then some c.prev.address
    else if c.prev.prevKind = .stringMiddle then stringBehind b c.prev.address
    else some c.prev.address := by
  rw [stringBehind]
  simp only [prev_eq h, atStart_eq h.prev, prevToken_eq h.prev, Option.bind_eq_bind,
    Option.bind_some, Cursor.kind_prevToken]
  rfl

/-- The run back through a string passes tokens that end no expression. -/
theorem exists_stringBehind (h : c.In b) {comments : Bool}
    (hrole : c.prevKind.roleBehind comments = .pass) :
    ∃ d : Cursor, stringBehind b c.address = some d.address ∧ d.In b ∧
      d.before.length ≤ c.before.length - 1 ∧
      ∀ depth, c.sexpTo comments depth = d.sexpTo comments depth := by
  induction hn : c.before.length generalizing c with
  | zero =>
    have hprev : c.prev = c := by
      rw [Cursor.prev, Cursor.prev?, List.length_eq_zero_iff.1 hn]
      rfl
    refine ⟨c, ?_, h, Nat.le_of_eq hn, fun _ => rfl⟩
    rw [stringBehind_step h, hprev,
      if_pos (by rw [Cursor.atStart, List.length_eq_zero_iff.1 hn]; rfl)]
  | succ n ih =>
    have hlen : c.prev.before.length = n := by
      obtain ⟨before, here, after⟩ := c
      cases before with
      | nil => simp at hn
      | cons p before => exact Nat.succ.inj hn
    have hpass := Cursor.sexpTo_prev hrole
    rw [stringBehind_step h]
    by_cases hmore : c.prev.atStart = false ∧ c.prev.prevKind = .stringMiddle
    · obtain ⟨d, hd, hdin, hle, hsame⟩ := ih h.prev (by rw [hmore.2]; rfl) hlen
      refine ⟨d, ?_, hdin, by omega, fun depth => (hpass depth).trans (hsame depth)⟩
      rw [hmore.1, if_neg (by simp), if_pos hmore.2, hd]
    · refine ⟨c.prev, ?_, h.prev, by omega, hpass⟩
      cases hstart : c.prev.atStart with
      | true => rfl
      | false => exact if_neg fun hk => hmore ⟨hstart, hk⟩

theorem sexpBack_step (h : c.In b) (comments : Bool) (depth : Int) :
    sexpBack b comments depth c.address =
      let d := c.backwardSpace comments
      if c.atStart then some (false, c.address)
      else if d.prevKind = .stringMiddle ∨ d.prevKind = .stringEnd then
        (stringBehind b d.address).bind (sexpBack b comments depth)
      else
        match d.prevKind.roleBehind false with
        | .pass => sexpBack b comments depth d.prev.address
        | .enter => sexpBack b comments (depth + 1) d.prev.address
        | .leave =>
          if depth - 1 ≤ 0 then some (true, d.prev.address)
          else sexpBack b comments (depth - 1) d.prev.address
        | .atom | .note =>
          if depth ≤ 0 then some (true, d.prev.address)
          else sexpBack b comments depth d.prev.address := by
  have hd := h.backwardSpace comments
  rw [sexpBack]
  simp only [atStart_eq h, backwardSpace_eq h, prevToken_eq hd, prev_eq hd, Option.bind_eq_bind,
    Option.bind_some, Cursor.kind_prevToken]
  rfl

/-- At the start there is no expression any more. -/
theorem sexpBack_of_atStart (h : c.In b) (hstart : c.before = []) (comments : Bool) (depth : Int) :
    sexpBack b comments depth c.address = some (false, c.address) := by
  rw [sexpBack_step h]
  exact if_pos (by rw [Cursor.atStart, hstart]; rfl)

theorem roleBehind_eq_false {comments : Bool} {k : Kind} (h : comments = true → k ≠ .comment) :
    k.roleBehind comments = k.roleBehind false := by
  revert h
  cases k <;> cases comments <;> decide

/-- One turn of the loop back, behind the blanks, when the turns after it do as they should. -/
theorem sexpBack_turn {comments : Bool} {depth : Nat} (h : c.In b) (hstart : c.before ≠ [])
    (hcomment : comments = true → c.prevKind ≠ .comment)
    (ih : ∀ e : Cursor, e.In b → e.before.length < c.before.length → ∀ k : Nat,
      sexpBack b comments k e.address = some (arrival (e.sexpTo comments k))) :
    (match c.prevKind.roleBehind false with
      | .pass => sexpBack b comments depth c.prev.address
      | .enter => sexpBack b comments (depth + 1) c.prev.address
      | .leave =>
        if (depth : Int) - 1 ≤ 0 then some (true, c.prev.address)
        else sexpBack b comments (depth - 1) c.prev.address
      | .atom | .note =>
        if (depth : Int) ≤ 0 then some (true, c.prev.address)
        else sexpBack b comments depth c.prev.address) =
      some (arrival (c.sexpTo comments depth)) := by
  have hprev := ih c.prev h.prev (Cursor.before_prev_lt hstart)
  have hone : (if (depth : Int) ≤ 0 then some (true, c.prev.address)
      else sexpBack b comments depth c.prev.address) =
      some (arrival (if depth = 0 then ⟨true, c.prev⟩ else c.prev.sexpTo comments depth)) := by
    by_cases hdepth : depth = 0
    · simp only [hdepth, Int.natCast_zero, Int.le_refl, ↓reduceIte]
      rfl
    · simp only [hdepth, show ¬ (depth : Int) ≤ 0 by omega, ↓reduceIte]
      exact hprev depth
  rw [Cursor.sexpTo_step hstart, roleBehind_eq_false hcomment]
  cases hrole : c.prevKind.roleBehind false with
  | pass => exact hprev depth
  | enter => exact hprev (depth + 1)
  | leave =>
    by_cases hdepth : depth ≤ 1
    · simp only [hdepth, show (depth : Int) - 1 ≤ 0 by omega, ↓reduceIte]
      rfl
    · simp only [hdepth, show ¬ (depth : Int) - 1 ≤ 0 by omega, ↓reduceIte]
      rw [show (depth : Int) - 1 = ((depth - 1 : Nat) : Int) by omega]
      exact hprev (depth - 1)
  | atom => exact hone
  | note => exact hone

theorem sexpBack_eq {comments : Bool} (h : c.In b) (hu : comments = false ∨ b.Unbroken)
    (depth : Nat) :
    sexpBack b comments depth c.address = some (arrival (c.sexpTo comments depth)) := by
  induction hn : c.before.length using Nat.strongRecOn generalizing c depth with
  | ind n ih =>
    subst hn
    have hd := h.backwardSpace comments
    have hle := Cursor.before_length_backwardSpace_le comments c
    have hcomment : comments = true → (c.backwardSpace comments).prevKind ≠ .comment := by
      rintro rfl
      exact h.prevKind_backwardSpace (hu.resolve_left (by simp))
    rw [sexpBack_step h, ← Cursor.sexpTo_backwardSpace]
    cases hstart : c.atStart with
    | true =>
      obtain ⟨before, here, after⟩ := c
      obtain rfl : before = [] := List.isEmpty_iff.1 hstart
      rfl
    | false =>
      simp only [Bool.false_eq_true, ↓reduceIte]
      generalize c.backwardSpace comments = d at hd hle hcomment ⊢
      by_cases hstring : d.prevKind = .stringMiddle ∨ d.prevKind = .stringEnd
      · have hpass : d.prevKind.roleBehind comments = .pass := by
          rcases hstring with hk | hk <;> rw [hk] <;> rfl
        obtain ⟨e, he, hein, hlen, hsame⟩ := exists_stringBehind hd hpass
        have hpos : 0 < c.before.length := List.length_pos_iff.2 fun hnil => by
          simp [Cursor.atStart, hnil] at hstart
        rw [if_pos hstring, he, Option.bind_some, hsame]
        exact ih e.before.length (by omega) hein depth rfl
      · rw [if_neg hstring]
        by_cases hfirst : d.before = []
        · have hkind : d.prevKind = .lineEnd := by rw [Cursor.prevKind, hfirst]; rfl
          have hprev : d.prev = d := by rw [Cursor.prev, Cursor.prev?, hfirst]; rfl
          have hto : d.sexpTo comments depth = ⟨false, d⟩ := by
            obtain ⟨before, here, after⟩ := d
            obtain rfl : before = [] := hfirst
            rfl
          rw [hkind, hprev, hto]
          exact sexpBack_of_atStart hd hfirst comments depth
        · exact sexpBack_turn hd hfirst hcomment fun e he hlt k => ih _ (by omega) he k rfl

/-! ## Whole motions -/

theorem forwardSexp_eq {comments : Bool} (h : c.In b) (hu : comments = true ∨ b.Unbroken) :
    forwardSexp b comments c.address = some (arrival (c.forwardSexp comments)) := by
  have hd := h.forwardSpace comments
  simp only [forwardSexp, forwardSpace_eq h, token_eq hd, Option.bind_eq_bind, Option.bind_some,
    Cursor.forwardSexp]
  by_cases hclosing : (c.forwardSpace comments).kind = .closing
  · exact (if_pos hclosing).trans (by rw [if_pos hclosing]; rfl)
  · refine (if_neg hclosing).trans ?_
    rw [if_neg hclosing]
    exact sexpAhead_eq hd hu 0

theorem backSexp_eq {comments : Bool} (h : c.In b) (hu : comments = false ∨ b.Unbroken) :
    backSexp b comments c.address = some (arrival (c.backwardSexp comments)) := by
  have hd := h.backwardSpace comments
  simp only [backSexp, backwardSpace_eq h, prevToken_eq hd, Option.bind_eq_bind,
    Option.bind_some, Cursor.backwardSexp, Cursor.kind_prevToken]
  by_cases hopening : (c.backwardSpace comments).prevKind = .opening
  · simp only [if_pos hopening]
    rfl
  · simp only [if_neg hopening]
    exact sexpBack_eq hd hu 0

theorem forwardSexps_eq (h : c.In b) :
    forwardSexps b true c.address = some (c.forwardSexps true).address := by
  fun_induction Cursor.forwardSexps true c with
  | case1 c hfound hlt ih =>
    rw [forwardSexps, forwardSexp_eq h (Or.inl rfl), ← ih (h.forwardSexp true)]
    exact if_pos hfound
  | case2 c hfound =>
    rw [forwardSexps, forwardSexp_eq h (Or.inl rfl)]
    exact if_neg hfound

theorem backwardSexps_eq (h : c.In b) :
    backwardSexps b c.address = some (c.backwardSexps false).address := by
  fun_induction Cursor.backwardSexps false c with
  | case1 c hfound hlt ih =>
    rw [backwardSexps, backSexp_eq h (Or.inl rfl), ← ih (h.backwardSexp false)]
    exact if_pos hfound
  | case2 c hfound =>
    rw [backwardSexps, backSexp_eq h (Or.inl rfl)]
    exact if_neg hfound

theorem forwardList_eq (h : c.In b) :
    forwardList b c.address = some (c.forwardList?.map Cursor.address) := by
  have hd := h.forwardSexps true
  simp only [forwardList, forwardSexps_eq h, token_eq hd, Option.bind_eq_bind, Option.bind_some,
    Cursor.forwardList?]
  by_cases hclosing : (c.forwardSexps true).kind = .closing
  · exact congrArg some ((if_pos hclosing).trans (by rw [if_pos hclosing]; rfl))
  · exact congrArg some ((if_neg hclosing).trans (by rw [if_neg hclosing]; rfl))

theorem backwardList_eq (h : c.In b) :
    backwardList b c.address = some (c.backwardList?.map Cursor.address) := by
  have hd := h.backwardSexps false
  simp only [backwardList, backwardSexps_eq h, prevToken_eq hd, Option.bind_eq_bind,
    Option.bind_some, Cursor.backwardList?, Cursor.kind_prevToken]
  split <;> rfl

theorem backwardUpList_eq (h : c.In b) :
    backwardUpList b c.address = some (c.backwardUpList?.map Cursor.address) := by
  have hd := h.backwardSpace true
  simp only [backwardUpList, backwardSpace_eq h, prevToken_eq hd, prev_eq hd, Option.bind_eq_bind,
    Option.bind_some, Cursor.backwardUpList?, Cursor.kind_prevToken]
  split <;> rfl

theorem withinString_eq (h : c.In b) : withinString b c.address = some c.withinString := by
  have hkind : c.here.token.kind = c.kind := rfl
  simp only [withinString, token_eq h, prevToken_eq h, Option.bind_eq_bind, Option.bind_some,
    Cursor.withinString, Cursor.kind_prevToken, hkind]
  by_cases hstring : c.kind.isString = true
  · simp [hstring]
  · by_cases hline : c.kind = .lineEnd
    · simp [hline, Kind.isString]
    · simp [hstring, hline]

end Checked
end StructEdit
