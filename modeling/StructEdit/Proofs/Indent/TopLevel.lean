import StructEdit.Proofs.Document.Refusing
import StructEdit.Proofs.Indent.Enclosing

/-!
# What stands above a form

The indentation in a form that starts at the margin does not depend on what stands above it. The
tokens of the form are those that it has alone, some rows further down, and so are the cursors in
it. A motion forward never looks at what is above. A motion back does where it comes to the start
of the form, but while the walk is in the form it stops before.

The walk comes to the first bracket of the form only by stepping out of its list. That bracket
stands at the margin, where the limit of the lists falls to zero, so the walk ends there, with text
above as at the start of a buffer.
-/
namespace StructEdit

/-! ## Tokens and cursors further down -/

/-- What stands above a form: the tokens, the nearest first, and the rows and offsets they take. -/
structure Upper where
  tokens : List Placed
  rows : Nat
  room : Nat
  /-- The form starts on a line of its own. -/
  ends : kindBefore tokens = .lineEnd

/-- A token of the form in the place that it has below. -/
def Upper.lower (u : Upper) (p : Placed) : Placed :=
  ⟨p.row + u.rows, p.index, p.start + u.room, p.token⟩

@[simp] theorem Upper.kind_lower (u : Upper) (p : Placed) : (u.lower p).kind = p.kind := rfl

theorem Upper.placeTokens_lower (u : Upper) (row start index : Nat) (ts : List Token) :
    placeTokens (row + u.rows) (start + u.room) index ts =
      (placeTokens row start index ts).map u.lower := by
  induction ts generalizing index with
  | nil => rfl
  | cons t ts ih =>
    rw [placeTokens, placeTokens, ih, List.map_cons, lower, Nat.add_right_comm]

theorem Upper.placeLines_lower (u : Upper) (row start : Nat) (ls : List Line) :
    placeLines (row + u.rows) (start + u.room) ls = (placeLines row start ls).map u.lower := by
  induction ls generalizing row start with
  | nil => rfl
  | cons l ls ih =>
    rw [placeLines, placeLines, List.map_append, u.placeTokens_lower, ← ih, Nat.add_right_comm row,
      Nat.add_right_comm start]

theorem Upper.kindBefore_append (u : Upper) (before : List Placed) :
    kindBefore (before.map u.lower ++ u.tokens) = kindBefore before := by
  cases before with
  | nil => exact u.ends
  | cons p before => rfl

namespace Cursor

/-- A cursor of the form where it stands with text above. -/
def under (u : Upper) (c : Cursor) : Cursor :=
  ⟨c.before.map u.lower ++ u.tokens, u.lower c.here, c.after.map u.lower⟩

end Cursor

/-- A landing in the form where it is with text above. -/
def Landing.under (u : Upper) (r : Landing) : Landing := ⟨r.found, r.cursor.under u⟩

namespace Cursor

variable (u : Upper) (comments : Bool)

@[simp] theorem kind_under (c : Cursor) : (c.under u).kind = c.kind := rfl

@[simp] theorem raw_under (c : Cursor) : (c.under u).raw = c.raw := rfl

@[simp] theorem prevKind_under (c : Cursor) : (c.under u).prevKind = c.prevKind :=
  u.kindBefore_append c.before

@[simp] theorem atEnd_under (c : Cursor) : (c.under u).atEnd = c.atEnd := List.isEmpty_map

@[simp] theorem next_under (c : Cursor) : (c.under u).next = c.next.under u := by
  obtain ⟨before, here, after⟩ := c
  cases after <;> rfl

/-! ## Motions forward -/

theorem spaceAhead_under (before : List Placed) (here : Placed) (after : List Placed) :
    spaceAhead comments (before.map u.lower ++ u.tokens) (u.lower here) (after.map u.lower) =
      (spaceAhead comments before here after).under u := by
  induction after generalizing before here with
  | nil => rfl
  | cons n after ih =>
    by_cases hskip : here.kind.isSkipped comments = true
    · simp only [List.map_cons, spaceAhead, u.kind_lower, hskip, ↓reduceIte]
      exact ih (here :: before) n
    · simp only [List.map_cons, spaceAhead, u.kind_lower, hskip, Bool.false_eq_true, ↓reduceIte]
      rfl

@[simp] theorem forwardSpace_under (c : Cursor) :
    (c.under u).forwardSpace comments = (c.forwardSpace comments).under u :=
  spaceAhead_under u comments c.before c.here c.after

theorem sexpAhead_under (depth : Nat) (before : List Placed) (here : Placed)
    (after : List Placed) :
    sexpAhead comments depth (before.map u.lower ++ u.tokens) (u.lower here) (after.map u.lower) =
      (sexpAhead comments depth before here after).under u := by
  induction after generalizing depth before here with
  | nil => rfl
  | cons n after ih =>
    have hgo : ∀ m, sexpAhead comments m (u.lower here :: (before.map u.lower ++ u.tokens))
        (u.lower n) (after.map u.lower) =
          (sexpAhead comments m (here :: before) n after).under u := fun m => ih m (here :: before) n
    have hover : (⟨true, next ⟨u.lower here :: (before.map u.lower ++ u.tokens), u.lower n,
        after.map u.lower⟩⟩ : Landing) = Landing.under u ⟨true, next ⟨here :: before, n, after⟩⟩ :=
      congrArg (Landing.mk true) (next_under u ⟨here :: before, n, after⟩)
    simp only [List.map_cons, sexpAhead, u.kind_lower, hgo, hover]
    cases here.kind.roleAhead comments with
    | pass => rfl
    | enter => rfl
    | leave =>
      rw [apply_ite (Landing.under u)]
      rfl
    | atom =>
      rw [apply_ite (Landing.under u)]
      rfl
    | note =>
      rw [apply_ite (Landing.under u)]

@[simp] theorem forwardSexp_under (c : Cursor) :
    (c.under u).forwardSexp comments = (c.forwardSexp comments).under u := by
  simp only [forwardSexp, forwardSpace_under, kind_under]
  split
  · rfl
  · exact sexpAhead_under u comments 0 _ _ _

@[simp] theorem following_under (c : Cursor) : (c.under u).following = c.following.under u := by
  rw [following, forwardSexp_under]
  exact forwardSpace_under u true _

/-! ## Motions back -/

variable {u comments}

theorem spaceBehind_under {here : Placed} {after before : List Placed}
    (h : (spaceBehind comments here after before).before ≠ []) :
    spaceBehind comments (u.lower here) (after.map u.lower) (before.map u.lower ++ u.tokens) =
      (spaceBehind comments here after before).under u := by
  induction before generalizing here after with
  | nil => exact absurd rfl h
  | cons p before ih =>
    simp only [List.map_cons, List.cons_append, spaceBehind, u.kind_lower, u.kindBefore_append]
      at h ⊢
    split
    · rename_i hskip
      rw [if_pos hskip] at h
      exact ih h
    · rfl

theorem backwardSpace_under {c : Cursor} (h : (c.backwardSpace comments).before ≠ []) :
    (c.under u).backwardSpace comments = (c.backwardSpace comments).under u :=
  spaceBehind_under h

theorem sexpBehind_under {depth : Nat} {here : Placed} {after before : List Placed}
    (h : (sexpBehind comments depth here after before).cursor.before ≠ []) :
    sexpBehind comments depth (u.lower here) (after.map u.lower)
        (before.map u.lower ++ u.tokens) =
      (sexpBehind comments depth here after before).under u := by
  induction before generalizing depth here after with
  | nil => exact absurd rfl h
  | cons p before ih =>
    simp only [List.map_cons, List.cons_append, sexpBehind, u.kind_lower] at h ⊢
    have hgo : ∀ m, (sexpBehind comments m p (here :: after) before).cursor.before ≠ [] →
        sexpBehind comments m (u.lower p) (u.lower here :: after.map u.lower)
          (before.map u.lower ++ u.tokens) =
            (sexpBehind comments m p (here :: after) before).under u := fun m hm => ih hm
    cases hr : p.kind.roleBehind comments <;> simp only [hr] at h ⊢
    case pass => exact hgo _ h
    case enter => exact hgo _ h
    all_goals
      split
      · rfl
      · rename_i hne
        rw [if_neg hne] at h
        exact hgo _ h

/-- A motion back that stays behind the first token of the form does not see what is above. -/
theorem backwardSexp_under {c : Cursor} (h : (c.backwardSexp comments).cursor.before ≠ []) :
    (c.under u).backwardSexp comments = (c.backwardSexp comments).under u := by
  have hspace : (c.backwardSpace comments).before ≠ [] := by
    intro hnil
    apply h
    simp only [backwardSexp]
    split
    · exact hnil
    · rw [hnil]
      rfl
  simp only [backwardSexp, backwardSpace_under hspace, prevKind_under] at h ⊢
  split
  · rfl
  · rename_i hk
    rw [if_neg hk] at h
    exact sexpBehind_under h

theorem prev_under {c : Cursor} (h : c.before ≠ []) : (c.under u).prev = c.prev.under u := by
  obtain ⟨before, here, after⟩ := c
  cases before with
  | nil => exact absurd rfl h
  | cons p before => rfl

theorem prevToken_under {c : Cursor} (h : c.before ≠ []) :
    (c.under u).prevToken = c.prevToken := by
  obtain ⟨before, here, after⟩ := c
  cases before with
  | nil => exact absurd rfl h
  | cons p before => rfl

theorem seek_under (offset : Nat) (before : List Placed) (here : Placed) (after : List Placed) :
    seek (offset + u.room) (before.map u.lower ++ u.tokens) (u.lower here) (after.map u.lower) =
      (seek offset before here after).under u := by
  induction after generalizing before here with
  | nil => rfl
  | cons n after ih =>
    have hstart : (u.lower n).start ≤ offset + u.room ↔ n.start ≤ offset :=
      Nat.add_le_add_iff_right
    simp only [List.map_cons, seek, hstart]
    split
    · exact ih (here :: before) n
    · rfl

end Cursor

theorem Buffer.offset_firstCursor (b : Buffer) : b.firstCursor.here.token.offset = 0 := by
  have hstart := b.in_firstCursor.start_eq
  rw [b.start_firstCursor] at hstart
  omega

/-! ## The walk -/

namespace IndentWalk

/-- A walk in the form where it is with text above. -/
def under (u : Upper) (w : IndentWalk) : IndentWalk :=
  { w with cursor := w.cursor.under u, lastRow := w.lastRow + u.rows }

variable {u : Upper} {b : Buffer} {table : RuleTable} {w w' : IndentWalk}

theorem stateAt_under {c : Cursor} (h : c.before ≠ []) :
    (w.under u).stateAt table (c.under u) = w.stateAt table c := by
  have hrow : (u.lower c.following.here).row = (u.lower c.here).row ↔
      c.following.here.row = c.here.row := by
    simp only [Upper.lower]
    omega
  have hrow' : (c.following.under u).here.row = (c.under u).here.row ↔
      c.following.here.row = c.here.row := hrow
  simp only [stateAt, Cursor.following_under, Cursor.kind_under, Cursor.raw_under,
    Cursor.atEnd_under, Cursor.prevToken_under h, hrow']
  rfl

theorem countLine_under (w : IndentWalk) : (w.under u).countLine = w.countLine.under u := by
  have hrow : (w.under u).cursor.here.row ≠ (w.under u).lastRow ↔
      w.cursor.here.row ≠ w.lastRow := by
    show w.cursor.here.row + u.rows ≠ w.lastRow + u.rows ↔ _
    omega
  have hend : (w.under u).cursor.following.atEnd = w.cursor.following.atEnd := by
    rw [under, Cursor.following_under, Cursor.atEnd_under]
  simp only [countLine, hrow, hend]
  split
  · simp only [under, Cursor.following_under]
    rfl
  · rfl

theorem countExpr_under (w : IndentWalk) : (w.under u).countExpr = w.countExpr.under u := by
  have hprev : (w.under u).cursor.prevKind = w.cursor.prevKind := Cursor.prevKind_under u w.cursor
  simp only [countExpr, hprev]
  split <;> rfl

theorem outOf_under {inside : Cursor} (h : inside.before ≠ []) (o : Placed) :
    (w.under u).outOf table (inside.under u) (u.lower o) = (w.outOf table inside o).under u := by
  simp only [outOf, stateAt_under h, Cursor.prev_under h]
  rfl

theorem next_under (w : IndentWalk) :
    (w.under u).countLine.countExpr = w.countLine.countExpr.under u := by
  rw [countLine_under, countExpr_under]

/-- The start of a buffer and text above are told apart only where the limit does not end the walk. -/
theorem isOver_under {startRow maxLines : Nat} (h : w.cursor.before ≠ [] ∨ w.depth = 0) :
    (w.under u).isOver (startRow + u.rows) maxLines = w.isOver startRow maxLines := by
  have hrows : startRow + u.rows - (w.under u).cursor.here.row = startRow - w.cursor.here.row :=
    Nat.add_sub_add_right startRow u.rows w.cursor.here.row
  rcases h with hne | hdepth
  · have hstart : (w.under u).cursor.atStart = w.cursor.atStart := by
      simp [under, Cursor.under, Cursor.atStart, List.isEmpty_eq_false_iff.2 hne, hne]
    simp only [isOver, hrows, hstart]
    rfl
  · simp [isOver, under, hdepth]

/-- A step over an expression, where it stays behind the first token of the form. -/
theorem back?_under_of_found (hf : (w.cursor.backwardSexp false).found = true)
    (hne : (w.cursor.backwardSexp false).cursor.before ≠ []) : (w.under u).back? table =
      some (under u { w with cursor := (w.cursor.backwardSexp false).cursor }) := by
  have hlanding : (w.under u).cursor.backwardSexp false = (w.cursor.backwardSexp false).under u :=
    Cursor.backwardSexp_under hne
  rw [back?_of_found (by rw [hlanding]; exact hf), hlanding]
  rfl

/-- A step out of a list, which may be the one that the form starts with. -/
theorem back?_under_of_opening {o : Placed} {outer : List Placed}
    (hf : (w.cursor.backwardSexp false).found = false)
    (hbefore : (w.cursor.backwardSexp false).cursor.before = o :: outer) (hk : o.kind = .opening) :
    (w.under u).back? table =
      some ((w.outOf table (w.cursor.backwardSexp false).cursor o).under u) := by
  have hne : (w.cursor.backwardSexp false).cursor.before ≠ [] := by simp [hbefore]
  have hlanding : (w.under u).cursor.backwardSexp false = (w.cursor.backwardSexp false).under u :=
    Cursor.backwardSexp_under hne
  have hbefore' : ((w.under u).cursor.backwardSexp false).cursor.before =
      u.lower o :: (outer.map u.lower ++ u.tokens) := by
    rw [hlanding, Landing.under, Cursor.under, hbefore]
    rfl
  rw [back?_of_opening (by rw [hlanding]; exact hf) hbefore' hk, hlanding, ← outOf_under hne]
  rfl

theorem run_of_back? (hback : w.back? table = some w') (startRow maxLines : Nat) :
    w.run table startRow maxLines =
      if w'.countLine.countExpr.isOver startRow maxLines then w'.countLine.countExpr
      else w'.countLine.countExpr.run table startRow maxLines := by
  rw [run]
  split
  · rename_i hnone
    rw [hnone] at hback
    simp at hback
  · rename_i v hv
    obtain rfl := Option.some.inj (hback.symm.trans hv)
    rfl

structure InForm (b : Buffer) (w : IndentWalk) : Prop where
  inside : w.cursor.In b
  first : b.firstCursor.here ∈ openBefore w.cursor.before

theorem InForm.before_ne_nil (h : InForm b w) : w.cursor.before ≠ [] :=
  List.ne_nil_of_mem (mem_of_mem_openBefore h.first)

theorem InForm.next (h : InForm b w) : InForm b w.countLine.countExpr :=
  ⟨by simpa using h.inside, by simpa using h.first⟩

variable (u table) (hp : Phase .code b.placed) (hplain : Cursor.Plain b.placed)
include hp hplain

/-- A step in a form does the same with text above. It stays in the list that the first token opens,
or steps out of it and lets the limit fall to zero. -/
theorem InForm.back?_under (h : InForm b w) :
    ∃ w', w.back? table = some w' ∧ (w.under u).back? table = some (w'.under u) ∧
      (InForm b w' ∨ w'.depth = 0) := by
  have hin := h.inside.backwardSexp false
  have hfirst := h.first
  rcases h.inside.backwardSexp_open hp hplain with
    ⟨hf, hsame⟩ | ⟨hf, ⟨o, outer, hbefore, hk, hopen⟩ | ⟨-, hnone⟩⟩
  · have hnext : InForm b { w with cursor := (w.cursor.backwardSexp false).cursor } :=
      ⟨hin, hsame.symm ▸ hfirst⟩
    exact ⟨_, back?_of_found hf, back?_under_of_found hf hnext.before_ne_nil, Or.inl hnext⟩
  · refine ⟨_, back?_of_opening hf hbefore hk, back?_under_of_opening hf hbefore hk, ?_⟩
    rw [hopen] at hfirst
    rcases List.mem_cons.1 hfirst with heq | hmem
    · have hmargin : o.token.offset ≤ 1 := by
        rw [← heq, b.offset_firstCursor]
        exact Nat.zero_le 1
      exact Or.inr (if_pos hmargin)
    · exact Or.inl ⟨hin.prev, (Cursor.before_prev hbefore).symm ▸ hmem⟩
  · rw [hnone] at hfirst
    simp at hfirst

/-- From a place in a form, the walk does the same with text above. -/
theorem InForm.run_under (h : InForm b w) (startRow maxLines : Nat) :
    (w.under u).run table (startRow + u.rows) maxLines =
      (w.run table startRow maxLines).under u := by
  have hends : ∀ v : IndentWalk, InForm b v ∨ v.depth = 0 →
      (v.countLine.countExpr.under u).isOver (startRow + u.rows) maxLines =
        v.countLine.countExpr.isOver startRow maxLines := fun v hv =>
    isOver_under (hv.imp (fun hv => hv.next.before_ne_nil) fun hv => by simpa using hv)
  fun_induction IndentWalk.run table startRow maxLines w with
  | case1 w hnone =>
    obtain ⟨v, hv, -⟩ := h.back?_under u table hp hplain
    rw [hnone] at hv
    simp at hv
  | case2 w w' hback hlt next hover =>
    obtain ⟨v, hv, hunder, hstays⟩ := h.back?_under u table hp hplain
    obtain rfl := Option.some.inj (hback.symm.trans hv)
    rw [run_of_back? hunder, next_under, hends w' hstays, if_pos hover]
  | case3 w w' hback hlt next hover ih =>
    obtain ⟨v, hv, hunder, hstays⟩ := h.back?_under u table hp hplain
    obtain rfl := Option.some.inj (hback.symm.trans hv)
    rw [run_of_back? hunder, next_under, hends w' hstays, if_neg hover]
    have hstill : InForm b w' := hstays.resolve_right fun hdepth => hover (by
      simp [next, isOver, hdepth])
    exact ih hstill.next

end IndentWalk

/-! ## Buffers one above the other -/

/-- The lines below are scanned in the mode that the last one above ends in. -/
theorem Line.scanAll_append {mode : Mode} {ls : List Line} {ss ts : List Text} {l : Line}
    (hls : scanAll mode ss = ls) (hlast : ls.getLast? = some l) :
    scanAll mode (ss ++ ts) = ls ++ scanAll l.stop ts := by
  induction ss generalizing mode ls with
  | nil =>
    subst hls
    simp [scanAll] at hlast
  | cons s ss ih =>
    subst hls
    rw [List.cons_append, scanAll, scanAll, List.cons_append]
    cases ss with
    | nil =>
      obtain rfl : scan s mode = l := by simpa [scanAll] using hlast
      rfl
    | cons s' ss => rw [ih rfl (by simpa [scanAll] using hlast)]

/-- Tokens that start no later are gone over. -/
theorem Cursor.seek_append {offset : Nat} {ps : List Placed} {q : Placed}
    (hps : ∀ p ∈ ps, p.start ≤ offset) (hq : q.start ≤ offset) (before : List Placed)
    (here : Placed) (after : List Placed) :
    seek offset before here (ps ++ q :: after) =
      seek offset (ps.reverse ++ here :: before) q after := by
  induction ps generalizing before here with
  | nil =>
    rw [List.nil_append, seek, if_pos hq]
    rfl
  | cons p ps ih =>
    rw [List.cons_append, seek, if_pos (hps p List.mem_cons_self),
      ih fun r hr => hps r (List.mem_cons_of_mem p hr), List.reverse_cons, List.append_assoc]
    rfl

namespace Buffer

variable {p q d : Buffer}

/-- A buffer as what stands above another one. -/
def upper (b : Buffer) : Upper where
  tokens := b.placed.reverse
  rows := b.lines.length
  room := b.maxOffset + 1
  ends := by
    cases hlast : b.placed.getLast? with
    | none => exact absurd (List.getLast?_eq_none_iff.1 hlast) b.placed_ne_nil
    | some t =>
      obtain ⟨init, hinit⟩ := List.getLast?_eq_some_iff.1 hlast
      rw [hinit, List.reverse_append]
      exact b.in_firstCursor.kind_last t (b.cons_firstCursor ▸ hlast)

theorem lines_eq_append (hp : p.Settled) (hq : q.Settled) (hd : d.Settled) (hup : p.Unbroken)
    (huq : q.Unbroken) (hud : d.Unbroken) (hclosed : p.Closed)
    (htext : d.text = p.text ++ '\n' :: q.text) : d.lines = p.lines ++ q.lines := by
  have hp' : p.lines.map Line.text ≠ [] := by simpa using p.lines_ne_nil
  have hq' : q.lines.map Line.text ≠ [] := by simpa using q.lines_ne_nil
  have htexts : d.lines.map Line.text = p.lines.map Line.text ++ q.lines.map Line.text := by
    refine Text.joinLines_injective (by simpa using d.lines_ne_nil) (by simp [hp'])
      (d.unbroken_iff.1 hud) (fun s hs => ?_) ?_
    · exact (List.mem_append.1 hs).elim (p.unbroken_iff.1 hup s) (q.unbroken_iff.1 huq s)
    · rw [Text.joinLines_append hp' hq']
      exact htext
  have hlast := List.getLast?_eq_some_getLast p.lines_ne_nil
  rw [← Line.scanAll_map_text hd.first hd.next, htexts,
    Line.scanAll_append (Line.scanAll_map_text hp.first hp.next) hlast, hclosed,
    Line.scanAll_map_text hq.first hq.next]

theorem placed_eq_append (h : d.lines = p.lines ++ q.lines) :
    d.placed = p.placed ++ q.placed.map p.upper.lower := by
  have hroom : extent p.lines = p.upper.room := by
    rw [← length_joinLines p.lines_ne_nil]
    exact congrArg (· + 1) p.length_text
  rw [placed, h, placeLines_append, hroom]
  exact congrArg (p.placed ++ ·) (p.upper.placeLines_lower 0 0 q.lines)

theorem cursorAt_eq_under (h : d.lines = p.lines ++ q.lines) (offset : Nat) :
    d.cursorAt (offset + p.upper.room) = (q.cursorAt offset).under p.upper := by
  have hplaced := placed_eq_append h
  rw [← d.cons_firstCursor, ← p.cons_firstCursor, ← q.cons_firstCursor, List.map_cons,
    List.cons_append] at hplaced
  obtain ⟨hhere, hafter⟩ := List.cons.inj hplaced
  have habove : ∀ t ∈ p.firstCursor.after, t.start ≤ offset + p.upper.room := by
    intro t ht
    have hmem : t ∈ p.placed := p.cons_firstCursor ▸ List.mem_cons_of_mem _ ht
    exact Nat.le_trans (start_le_of_mem_placed hmem) (by simp only [upper]; omega)
  have hfirst : (p.upper.lower q.firstCursor.here).start ≤ offset + p.upper.room := by
    have hstart : q.firstCursor.here.start = 0 := q.start_firstCursor
    simp only [Upper.lower, hstart]
    omega
  have htokens : p.firstCursor.after.reverse ++ [p.firstCursor.here] = p.upper.tokens := by
    rw [← List.reverse_cons, p.cons_firstCursor]
    rfl
  rw [cursorAt, hhere, hafter, d.before_firstCursor, Cursor.seek_append habove hfirst, htokens,
    cursorAt, q.before_firstCursor]
  exact Cursor.seek_under offset [] q.firstCursor.here q.firstCursor.after

/-- The states in a form that starts a buffer do not depend on what stands above the buffer. -/
theorem indentStates_eq_of_lines (h : d.lines = p.lines ++ q.lines) (hp : Phase .code q.placed)
    (hplain : Cursor.Plain q.placed) {offset : Nat}
    (hfirst : q.firstCursor.here ∈ openBefore (q.cursorAt offset).before)
    (maxDepth maxLines : Nat) (table : RuleTable) :
    d.indentStates (offset + p.upper.room) maxDepth maxLines table =
      q.indentStates offset maxDepth maxLines table := by
  rw [← Cursor.openBefore_backwardSpace true] at hfirst
  have hstart := Cursor.backwardSpace_under (u := p.upper)
    (List.ne_nil_of_mem (mem_of_mem_openBefore hfirst))
  have hform : IndentWalk.InForm q (.new ((q.cursorAt offset).backwardSpace true) maxDepth) :=
    ⟨(q.in_cursorAt offset).backwardSpace true, hfirst⟩
  have hrun := hform.run_under p.upper table hp hplain
    ((q.cursorAt offset).backwardSpace true).here.row maxLines
  simp only [indentStates, cursorAt_eq_under h, hstart]
  exact congrArg (fun w : IndentWalk => if w.states.isEmpty then [.margin w.lastIndent]
    else w.states) hrun

end Buffer

/-- Indentation is local to a form at the margin. When a text without marks and junk starts with an
opening bracket, and that bracket waits for its partner at an offset, any other text may be put in
lines above, as long as it does not end in a string. The states at the offset stay the same, and so
does the column of a new line, for any rules and any limits. -/
theorem indentAt_below {p q : Text} (hp : '\r' ∉ p) (hq : '\r' ∉ q)
    (hclosed : (Buffer.ofText p).Closed)
    (hplain : ∀ t ∈ (Buffer.ofText q).placed, t.kind ≠ .mark ∧ t.kind ≠ .junk) {offset : Nat}
    (hfirst : (Buffer.ofText q).firstCursor.here ∈
      openBefore ((Buffer.ofText q).cursorAt offset).before) (s : IndentSettings) :
    (Buffer.ofText (p ++ '\n' :: q)).indentStates (p.length + 1 + offset) s.maxDepth s.maxLines
        s.rules = (Buffer.ofText q).indentStates offset s.maxDepth s.maxLines s.rules ∧
    (Buffer.ofText (p ++ '\n' :: q)).indentAt (p.length + 1 + offset) s =
      (Buffer.ofText q).indentAt offset s := by
  have hboth : '\r' ∉ p ++ '\n' :: q := by
    simp [hp, hq]
  have htext : ∀ {t : Text}, '\r' ∉ t → (Buffer.ofText t).text = t := fun {t} ht => by
    rw [Buffer.text_ofText (Text.returnsInBreaks_of_not_mem ht),
      Text.normalizeBreaks_of_not_mem_return ht]
  have hsettled : ∀ t, (Buffer.ofText t).Settled := fun t => (Buffer.covered_ofText t).settled rfl
  have hlines := Buffer.lines_eq_append (hsettled p) (hsettled q) (hsettled (p ++ '\n' :: q))
    (.ofText p) (.ofText q) (.ofText _) hclosed (by rw [htext hp, htext hq, htext hboth])
  have hroom : p.length + 1 + offset = offset + (Buffer.ofText p).upper.room := by
    have hlength := (Buffer.ofText p).length_text
    rw [htext hp] at hlength
    rw [Buffer.upper, ← hlength, Nat.add_comm]
  have hstates := Buffer.indentStates_eq_of_lines hlines
    (Buffer.phase_placed (hsettled q) (.ofText q)) hplain hfirst s.maxDepth s.maxLines s.rules
  rw [← hroom] at hstates
  exact ⟨hstates, congrArg indentColumn hstates⟩

/-- In a call that has a rule, with a list above that is still open. -/
theorem indentAt_below_call :
    (Buffer.ofText ("[a".toList ++ '\n' :: "(f b\n".toList)).indentAt 8
      ⟨3, 20, .insert .empty ['f'] [.inner 0 none]⟩ = 2 := by
  have hfirst : (Buffer.ofText "(f b\n".toList).firstCursor.here ∈
      openBefore ((Buffer.ofText "(f b\n".toList).cursorAt 5).before := by
    decide +kernel
  have hbelow := indentAt_below (p := "[a".toList) (by decide) (by decide) (by decide +kernel)
    (by decide +kernel) hfirst ⟨3, 20, .insert .empty ['f'] [.inner 0 none]⟩
  exact hbelow.2.trans (by decide +kernel)

end StructEdit
