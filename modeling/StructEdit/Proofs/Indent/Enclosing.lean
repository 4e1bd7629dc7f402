import Mathlib.Data.List.Forall2
import StructEdit.Indent.Column
import StructEdit.Proofs.Cursor.Outward
import StructEdit.Proofs.Cursor.Strings
import StructEdit.Proofs.Cursor.Walking

/-!
# States of the lists around a place

`openBefore` reads the tokens from the first one on and keeps a stack of the opening brackets that
wait for their partner. The walk that notes states goes the other way and never counts through.
Where no mark and no junk comes between, both agree. A motion back over an expression leaves the
stack as it is. One that finds none stands right behind the top of the stack, and the walk then
steps out before it. So each list is noted when it is the innermost one that is left, and what is
noted is about its opening bracket.

The walk ends when it has come too far up or has noted enough lists, and so it may end too soon. It
does not end before the first list when that list starts near enough: the rows of the tokens in
between are no higher up.
-/
namespace StructEdit

/-! ## Opening brackets without partner -/

/-- The opening brackets without partner among tokens that are listed from the last one to the first,
the innermost bracket first. A closing bracket of any family takes the innermost one away. -/
def openBefore : List Placed → List Placed
  | [] => []
  | q :: before =>
    match q.kind with
    | .opening => q :: openBefore before
    | .closing => (openBefore before).tail
    | _ => openBefore before

theorem openBefore_opening {q : Placed} (h : q.kind = .opening) (before : List Placed) :
    openBefore (q :: before) = q :: openBefore before := by
  rw [openBefore, h]

theorem openBefore_closing {q : Placed} (h : q.kind = .closing) (before : List Placed) :
    openBefore (q :: before) = (openBefore before).tail := by
  rw [openBefore, h]

theorem openBefore_other {q : Placed} (ho : q.kind ≠ .opening) (hc : q.kind ≠ .closing)
    (before : List Placed) : openBefore (q :: before) = openBefore before := by
  rw [openBefore]
  split
  · exact absurd ‹_› ho
  · exact absurd ‹_› hc
  · rfl

theorem mem_of_mem_openBefore {o : Placed} {ps : List Placed} (h : o ∈ openBefore ps) : o ∈ ps := by
  induction ps with
  | nil => simp [openBefore] at h
  | cons q ps ih =>
    rw [openBefore] at h
    split at h
    · exact (List.mem_cons.1 h).elim (fun hq => hq ▸ List.mem_cons_self)
        fun ho => List.mem_cons_of_mem q (ih ho)
    · exact List.mem_cons_of_mem q (ih (List.mem_of_mem_tail h))
    · exact List.mem_cons_of_mem q (ih h)

theorem mem_of_openBefore_eq {o : Placed} {outer ps : List Placed}
    (h : openBefore ps = o :: outer) : o ∈ ps :=
  mem_of_mem_openBefore (h ▸ List.mem_cons_self)

/-- The stack from the place where the count, with `n` counted before, comes to -1. -/
def openFrom (n : Int) (ps : List Placed) : List Placed :=
  match exit? Kind.behind n ps with
  | none => []
  | some i => ps[i]?.toList ++ openBefore (ps.drop (i + 1))

theorem openFrom_cons {n : Int} {q : Placed} (h : n + q.kind.behind ≠ -1) (ps : List Placed) :
    openFrom n (q :: ps) = openFrom (n + q.kind.behind) ps := by
  rw [openFrom, openFrom, exit?_cons h]
  cases exit? Kind.behind (n + q.kind.behind) ps <;> rfl

/-- Counting finds the stack below its first `n` brackets. -/
theorem drop_openBefore (n : Nat) (ps : List Placed) : (openBefore ps).drop n = openFrom n ps := by
  induction ps generalizing n with
  | nil => simp [openBefore, openFrom, exit?]
  | cons q ps ih =>
    by_cases ho : q.kind = .opening
    · have hweight : q.kind.behind = -1 := by rw [ho]; rfl
      rw [openBefore_opening ho]
      cases n with
      | zero =>
        have hexit : exit? Kind.behind 0 (q :: ps) = some 0 := by
          rw [exit?, if_pos (by rw [hweight]; rfl)]
        rw [openFrom, Int.ofNat_zero, hexit]
        rfl
      | succ n =>
        have hsum : ((n + 1 : Nat) : Int) + q.kind.behind = n := by omega
        rw [openFrom_cons (by omega), hsum]
        exact ih n
    by_cases hc : q.kind = .closing
    · have hsum : (n : Int) + q.kind.behind = (n + 1 : Nat) := by
        rw [hc]
        rfl
      rw [openBefore_closing hc, openFrom_cons (by omega), hsum, ← ih (n + 1), List.drop_tail]
    · have hweight : q.kind.behind = 0 := by
        cases hk : q.kind <;> simp_all [Kind.behind, Kind.ahead]
      rw [openBefore_other ho hc, openFrom_cons (by omega), hweight, Int.add_zero]
      exact ih n

theorem openBefore_eq_openFrom (ps : List Placed) : openBefore ps = openFrom 0 ps :=
  drop_openBefore 0 ps

/-- Tokens that leave the count where it was leave the stack as it was. -/
theorem openBefore_append_of_falls {ts : List Placed} (h : Falls Kind.behind 0 ts)
    (rest : List Placed) : openBefore (ts ++ rest) = openBefore rest := by
  have hexit := h.level 0 rest
  rw [Int.ofNat_zero] at hexit
  rw [openBefore_eq_openFrom, openBefore_eq_openFrom rest, openFrom, openFrom, hexit]
  cases exit? Kind.behind 0 rest with
  | none => rfl
  | some i =>
    have hindex : (ts ++ rest)[i + ts.length]? = rest[i]? := by
      rw [List.getElem?_append_right (Nat.le_add_left _ _), Nat.add_sub_cancel]
    have hdrop : (ts ++ rest).drop (i + ts.length + 1) = rest.drop (i + 1) := by
      rw [show i + ts.length + 1 = ts.length + (i + 1) by omega, List.drop_length_add_append]
    simp only [Option.map_some, hindex, hdrop]

theorem openBefore_of_exit_none {ps : List Placed} (h : exit? Kind.behind 0 ps = none) :
    openBefore ps = [] := by
  rw [openBefore_eq_openFrom, openFrom, h]

theorem openBefore_append_of_skipped {comments : Bool} {ts : List Placed}
    (h : ∀ q ∈ ts, q.kind.isSkipped comments = true) (rest : List Placed) :
    openBefore (ts ++ rest) = openBefore rest := by
  refine openBefore_append_of_falls ?_ rest
  have hfalls := falls_nil.skip fun q hq => Cursor.behind_of_skipped (h q hq)
  rwa [List.append_nil] at hfalls

namespace Cursor

variable {b : Buffer} {c : Cursor} {o : Placed} {rest : List Placed}

/-! ## Rows -/

/-- No token behind a cursor stands in a lower row. -/
theorem In.row_le (h : c.In b) {q : Placed} (hq : q ∈ c.before) : q.row ≤ c.here.row := by
  obtain ⟨above, l, below, left, right, hs⟩ := h.seated
  have hrow : c.here.row = above.length := by rw [hs.here]
  have hmem : q ∈ placeLines 0 0 above ++ placeTokens above.length (extent above) 0 left := by
    rw [← hs.before]
    exact List.mem_reverse.2 hq
  rw [hrow]
  rcases List.mem_append.1 hmem with hmem | hmem
  · obtain ⟨j, m, k, t, hm, -, rfl⟩ := mem_placeLines_iff.1 hmem
    have hj := (List.getElem?_eq_some_iff.1 hm).1
    simp only [Nat.zero_add]
    omega
  · obtain ⟨k, hk⟩ := List.mem_iff_getElem?.1 hmem
    rw [getElem?_placeTokens, Option.map_eq_some_iff] at hk
    obtain ⟨t, -, rfl⟩ := hk
    exact Nat.le_refl _

/-- Behind a token that ends no line stands another one of its row. -/
theorem In.row_eq (h : c.In b) (hbefore : c.before = o :: rest) (hk : o.kind ≠ .lineEnd) :
    c.here.row = o.row := by
  obtain ⟨above, l, below, left, right, hs⟩ := h.seated
  have hkind := hs.prevKind_eq
  rw [prevKind, hbefore] at hkind
  rcases List.eq_nil_or_concat left with rfl | ⟨init, t, rfl⟩
  · exact absurd hkind hk
  · have hbehind := hs.before
    simp only [hbefore, List.reverse_cons, List.concat_eq_append, placeTokens_append, placeTokens,
      ← List.append_assoc] at hbehind
    obtain rfl := List.singleton_inj.1 (List.append_inj_right' hbehind rfl)
    rw [hs.here]

/-- Behind a token that ends no line, the column counts on. -/
theorem In.offset_eq (h : c.In b) (hbefore : c.before = o :: rest) (hk : o.kind ≠ .lineEnd) :
    c.here.token.offset = o.token.offset + o.token.length := by
  have hprev : c.prev? = some ⟨rest, o, c.here :: c.after⟩ := by rw [Cursor.prev?, hbefore]
  have hin := h.prev? hprev
  have hstart := hin.start_next? (next?_of_prev? hprev)
  have hhere := hin.start_eq
  rw [h.start_eq, h.row_eq hbefore hk, hhere] at hstart
  simp only at hstart
  omega

/-- A cursor that is further on in the same row has a larger column. -/
theorem In.offset_mono {d : Cursor} (hc : c.In b) (hd : d.In b)
    (hle : c.before.length ≤ d.before.length) (hrow : d.here.row = c.here.row) :
    c.here.token.offset ≤ d.here.token.offset := by
  have hstart := hc.start_mono hd hle
  rw [hc.start_eq, hd.start_eq, hrow] at hstart
  omega

/-! ## Motions back -/

theorem backwardSexp_not_found {comments : Bool} (h : (c.backwardSexp comments).found = false) :
    (c.backwardSexp comments).cursor.prevKind = .opening ∨
      (c.backwardSexp comments).cursor.before = [] := by
  simp only [backwardSexp] at h ⊢
  split
  · rename_i hk
    exact Or.inl hk
  · rename_i hk
    rw [if_neg hk] at h
    exact Or.inr (sexpBehind_not_found h)

theorem openBefore_backwardSpace (comments : Bool) (c : Cursor) :
    openBefore (c.backwardSpace comments).before = openBefore c.before := by
  obtain ⟨ts, hspan, hskip, -⟩ := span_backwardSpace comments c
  rw [hspan.before_eq]
  exact (openBefore_append_of_skipped (fun q hq => hskip q (List.mem_reverse.1 hq)) _).symm

/-- A motion back over an expression leaves the stack as it is. Where it finds none, it stands right
behind the top of the stack, or at the start of the buffer with no list around it. -/
theorem In.backwardSexp_open (hp : Phase .code b.placed) (hplain : Plain b.placed) (h : c.In b) :
    (c.backwardSexp false).found = true ∧
      openBefore (c.backwardSexp false).cursor.before = openBefore c.before ∨
    (c.backwardSexp false).found = false ∧
      ((∃ o outer, (c.backwardSexp false).cursor.before = o :: outer ∧ o.kind = .opening ∧
          openBefore c.before = o :: openBefore outer) ∨
        (c.backwardSexp false).cursor.before = [] ∧ openBefore c.before = []) := by
  have hopen : openBefore (c.backwardSexp false).cursor.before = openBefore c.before := by
    rcases h.backwardSexp_counts hp hplain with ⟨ts, hspan, hfalls, -⟩ | ⟨hf, hk, hexit⟩
    · rw [hspan.before_eq]
      exact (openBefore_append_of_falls hfalls _).symm
    · rw [openBefore_of_exit_none hexit, (backwardSexp_not_found hf).resolve_left hk]
      rfl
  cases hf : (c.backwardSexp false).found with
  | true => exact Or.inl ⟨rfl, hopen⟩
  | false =>
    refine Or.inr ⟨rfl, ?_⟩
    rw [← hopen]
    rcases backwardSexp_not_found hf with hk | hnil
    · cases hbefore : (c.backwardSexp false).cursor.before with
      | nil => simp [prevKind, hbefore, kindBefore] at hk
      | cons o outer =>
        rw [prevKind, hbefore] at hk
        exact Or.inl ⟨o, outer, rfl, hk, openBefore_opening hk outer⟩
    · exact Or.inr ⟨hnil, by rw [hnil]; rfl⟩

theorem before_prev (h : c.before = o :: rest) : c.prev.before = rest := by
  rw [prev, prev?, h]
  rfl

/-- Right behind an opening bracket the way out of its list is one step. -/
theorem backwardUpList?_of_opening (hbefore : c.before = o :: rest) (hk : o.kind = .opening) :
    c.backwardUpList? = some c.prev := by
  have hstay : c.backwardSpace true = c := by
    obtain ⟨before, here, after⟩ := c
    obtain rfl : before = o :: rest := hbefore
    simp [backwardSpace, spaceBehind, hk, Kind.isSkipped]
  have hprev : c.prevKind = .opening := by rw [prevKind, hbefore]; exact hk
  rw [backwardUpList?, hstay]
  exact if_pos hprev

end Cursor

/-! ## States -/

structure Describes (table : RuleTable) (o : Placed) (s : IndentState) : Prop where
  startColumn : s.startColumn = o.token.offset + o.token.length
  firstItemColumn : s.startColumn ≤ s.firstItemColumn
  rules : ∃ first, s.first = some first ∧ s.rules = table.get first

/-- The lists that are described, from the inside out, are those of the states from the last one on. -/
theorem describes_getElem? {table : RuleTable} {opens front beyond : List Placed}
    {states : List IndentState} (hopens : opens = front ++ beyond)
    (h : List.Forall₂ (Describes table) front states.reverse) {j : Nat} (hj : j < states.length) :
    ∃ o s, opens[j]? = some o ∧ states[states.length - 1 - j]? = some s ∧ Describes table o s := by
  have hstate : j < states.reverse.length := by rwa [List.length_reverse]
  have hlist : j < front.length := by rwa [h.length_eq]
  refine ⟨front[j], states.reverse[j], ?_, ?_, h.get hlist hstate⟩
  · rw [hopens, List.getElem?_append_left hlist, List.getElem?_eq_getElem hlist]
  · rw [← List.getElem?_reverse hj, List.getElem?_eq_getElem hstate]

namespace IndentWalk

variable {b : Buffer} {table : RuleTable} {w w' : IndentWalk}

theorem describes_stateAt {c : Cursor} {o : Placed} {rest : List Placed} (h : c.In b)
    (hbefore : c.before = o :: rest) (hk : o.kind = .opening) (w : IndentWalk) :
    Describes table o (w.stateAt table c) where
  startColumn := h.offset_eq hbefore (by simp [hk])
  firstItemColumn := by
    have hin : c.following.In b := (h.forwardSexp true).forwardSpace true
    have hle : c.before.length ≤ c.following.before.length :=
      Nat.le_trans (Cursor.before_length_le_forwardSexp true c)
        (Cursor.before_length_le_forwardSpace true _)
    simp only [stateAt]
    split
    · rename_i hitem
      exact h.offset_mono hin hle hitem.2.1
    · exact Nat.le_refl _
  rules := ⟨c.raw, rfl, rfl⟩

/-! ## One step -/

/-- The walk after it has stepped out of the list that `o` opens, from `inside` right behind it. -/
def outOf (table : RuleTable) (w : IndentWalk) (inside : Cursor) (o : Placed) : IndentWalk :=
  { w with
    cursor := inside.prev
    depth := if o.token.offset ≤ 1 then 0 else w.depth
    argPosition := 0
    exprsOnLine := 1
    states := w.stateAt table inside :: w.states }

theorem back?_of_found (h : (w.cursor.backwardSexp false).found = true) :
    w.back? table = some { w with cursor := (w.cursor.backwardSexp false).cursor } := by
  rw [back?]
  exact if_pos h

theorem back?_of_opening {o : Placed} {outer : List Placed}
    (h : (w.cursor.backwardSexp false).found = false)
    (hbefore : (w.cursor.backwardSexp false).cursor.before = o :: outer) (hk : o.kind = .opening) :
    w.back? table = some (w.outOf table (w.cursor.backwardSexp false).cursor o) := by
  have hprev : (w.cursor.backwardSexp false).cursor.prevKind = .opening := by
    rw [Cursor.prevKind, hbefore]
    exact hk
  have htoken : (w.cursor.backwardSexp false).cursor.prevToken = o.token := by
    rw [Cursor.prevToken, hbefore]
  simp only [back?, h, Bool.false_eq_true, ↓reduceIte, Cursor.backwardUpList?_of_opening hbefore hk,
    Option.map_some, hprev, htoken, true_and, outOf]

theorem back?_of_outside (h : (w.cursor.backwardSexp false).found = false)
    (hbefore : (w.cursor.backwardSexp false).cursor.before = []) : w.back? table = none := by
  have hout : (w.cursor.backwardSexp false).cursor.backwardUpList? = none := by
    rw [Cursor.backwardUpList?, Cursor.backwardSpace, hbefore]
    rfl
  simp only [back?, h, Bool.false_eq_true, ↓reduceIte, hout, Option.map_none]

/-! ## The whole walk -/

/-- The lists that the walk has left are described by the states, the innermost one by the last
state, and the lists around the cursor are those that are left. -/
structure Noted (b : Buffer) (table : RuleTable) (opens : List Placed) (w : IndentWalk) : Prop where
  inside : w.cursor.In b
  noted : ∃ front, opens = front ++ openBefore w.cursor.before ∧
    List.Forall₂ (Describes table) front w.states.reverse

/-- Before the first state is noted, there is a list to come to that starts near enough. -/
def Nearing (startRow maxLines : Nat) (w : IndentWalk) : Prop :=
  w.states = [] → 1 ≤ w.depth ∧ 1 ≤ maxLines ∧
    ∃ o outer, openBefore w.cursor.before = o :: outer ∧ startRow < o.row + maxLines

variable {opens : List Placed} {startRow maxLines : Nat}

theorem Noted.countLine_countExpr (h : Noted b table opens w) :
    Noted b table opens w.countLine.countExpr where
  inside := by simpa using h.inside
  noted := by simpa using h.noted

variable (hp : Phase .code b.placed) (hplain : Cursor.Plain b.placed)
include hp hplain

/-- A step goes back over an expression, steps out of the innermost list, or finds no list. -/
theorem back?_cases (table : RuleTable) (hin : w.cursor.In b) :
    (∃ c : Cursor, c.In b ∧ openBefore c.before = openBefore w.cursor.before ∧
      w.back? table = some { w with cursor := c }) ∨
    (∃ inside o outer, inside.In b ∧ inside.before = o :: outer ∧ o.kind = .opening ∧
      openBefore w.cursor.before = o :: openBefore outer ∧
      w.back? table = some (w.outOf table inside o)) ∨
    openBefore w.cursor.before = [] ∧ w.back? table = none := by
  have hin' := hin.backwardSexp false
  rcases hin.backwardSexp_open hp hplain with
    ⟨hf, hsame⟩ | ⟨hf, ⟨o, outer, hbefore, hk, hopen⟩ | ⟨hnil, hnone⟩⟩
  · exact Or.inl ⟨_, hin', hsame, back?_of_found hf⟩
  · exact Or.inr (Or.inl ⟨_, o, outer, hin', hbefore, hk, hopen, back?_of_opening hf hbefore hk⟩)
  · exact Or.inr (Or.inr ⟨hnone, back?_of_outside hf hnil⟩)

theorem Noted.back (h : Noted b table opens w) (hback : w.back? table = some w') :
    Noted b table opens w' := by
  obtain ⟨front, hopens, hfront⟩ := h.noted
  rcases back?_cases hp hplain table h.inside with
    ⟨c, hin, hsame, hstep⟩ | ⟨inside, o, outer, hin, hbefore, hk, hopen, hstep⟩ | ⟨-, hstep⟩
  · obtain rfl := Option.some.inj (hstep.symm.trans hback)
    exact ⟨hin, front, by rw [hopens, ← hsame], hfront⟩
  · obtain rfl := Option.some.inj (hstep.symm.trans hback)
    have hstate : Describes table o (w.stateAt table inside) := describes_stateAt hin hbefore hk w
    refine ⟨hin.prev, front ++ [o], ?_, ?_⟩
    · rw [hopens, hopen, List.append_assoc]
      exact congrArg (front ++ o :: openBefore ·) (Cursor.before_prev hbefore).symm
    · simpa [outOf] using List.rel_append hfront (.cons hstate .nil)
  · rw [hstep] at hback
    simp at hback

theorem Noted.run (h : Noted b table opens w) :
    Noted b table opens (w.run table startRow maxLines) := by
  fun_induction IndentWalk.run table startRow maxLines w with
  | case1 w hnone => exact h
  | case2 w w' hback hlt next hover => exact (h.back hp hplain hback).countLine_countExpr
  | case3 w w' hback hlt next hover ih => exact ih (h.back hp hplain hback).countLine_countExpr

theorem Nearing.back?_ne_none (h : Nearing startRow maxLines w) (hin : w.cursor.In b)
    (hs : w.states = []) : w.back? table ≠ none := by
  obtain ⟨-, -, o, outer, hopen, -⟩ := h hs
  rcases back?_cases hp hplain table hin with
    ⟨c, -, -, hstep⟩ | ⟨inside, p, rest, -, -, -, -, hstep⟩ | ⟨hnone, -⟩
  · simp [hstep]
  · simp [hstep]
  · rw [hnone] at hopen
    simp at hopen

/-- A walk that nears a list is not over before it has noted it. -/
theorem Nearing.back (h : Nearing startRow maxLines w) (hin : w.cursor.In b)
    (hback : w.back? table = some w') : Nearing startRow maxLines w' ∧
      (w'.states = [] → w'.isOver startRow maxLines = false) := by
  rcases back?_cases hp hplain table hin with
    ⟨c, hin', hsame, hstep⟩ | ⟨inside, o, outer, -, -, -, -, hstep⟩ | ⟨-, hstep⟩
  · obtain rfl := Option.some.inj (hstep.symm.trans hback)
    refine ⟨fun hs => by simpa only [hsame] using h hs, fun (hs : w.states = []) => ?_⟩
    obtain ⟨hdepth, hlines, o, outer, hopen, hrow⟩ := h hs
    have ho := mem_of_openBefore_eq (hsame.trans hopen)
    have hle := hin'.row_le ho
    simp only [isOver, Cursor.atStart, hs, List.length_nil, Bool.or_eq_false_iff,
      List.isEmpty_eq_false_iff, decide_eq_false_iff_not]
    exact ⟨⟨List.ne_nil_of_mem ho, by omega⟩, by omega⟩
  · obtain rfl := Option.some.inj (hstep.symm.trans hback)
    have hnoted : (w.outOf table inside o).states ≠ [] := by simp [outOf]
    exact ⟨fun hs => absurd hs hnoted, fun hs => absurd hs hnoted⟩
  · rw [hstep] at hback
    simp at hback

/-- A walk that nears a list notes it. -/
theorem Nearing.run (h : Nearing startRow maxLines w) (hnoted : Noted b table opens w) :
    (w.run table startRow maxLines).states ≠ [] := by
  fun_induction IndentWalk.run table startRow maxLines w with
  | case1 w hnone => exact fun hs => h.back?_ne_none hp hplain hnoted.inside hs hnone
  | case2 w w' hback hlt next hover =>
    obtain ⟨-, hgoes⟩ := h.back hp hplain hnoted.inside hback
    intro hs
    have hnot := hgoes (by simpa [next] using hs)
    simp only [next, isOver, cursor_countExpr, cursor_countLine, depth_countExpr, depth_countLine,
      states_countExpr, states_countLine] at hover
    rw [isOver, hover] at hnot
    simp at hnot
  | case3 w w' hback hlt next hover ih =>
    obtain ⟨hnext, -⟩ := h.back hp hplain hnoted.inside hback
    exact ih (by simpa [Nearing, next] using hnext)
      (hnoted.back hp hplain hback).countLine_countExpr

end IndentWalk

/-! ## The column -/

theorem IndentRule.le_of_column? {r : IndentRule} {s : IndentState} {distance n : Nat}
    (hs : s.startColumn ≤ s.firstItemColumn) (h : r.column? s distance = some n) :
    s.startColumn ≤ n := by
  cases r with
  | inner depth limit =>
    simp only [IndentRule.column?, Option.ite_none_right_eq_some, Option.some.injEq] at h
    omega
  | block args =>
    simp only [IndentRule.column?, Option.ite_none_left_eq_some] at h
    obtain ⟨-, h⟩ := h
    split at h
    · obtain rfl := Option.some.inj h
      exact hs
    · simp only [Option.ite_none_right_eq_some, Option.some.injEq] at h
      omega

/-- No rule and no default puts a line in front of the first element of its list. -/
theorem le_indentColumn {states : List IndentState} {s : IndentState}
    (hlast : states.getLast? = some s) (hs : s.startColumn ≤ s.firstItemColumn) :
    s.startColumn ≤ indentColumn states := by
  obtain ⟨outer, rfl⟩ := List.getLast?_eq_some_iff.1 hlast
  rw [indentColumn, List.reverse_append]
  simp only [List.reverse_singleton, List.singleton_append]
  cases hcolumn : (ruleColumns s (s :: outer.reverse)).getLast? with
  | none =>
    simp only [Option.getD_none, IndentState.plainColumn]
    split
    · exact hs
    · exact Nat.le_refl _
  | some n =>
    have hmem := List.mem_of_getLast? hcolumn
    simp only [ruleColumns, List.mem_flatMap, List.mem_filterMap] at hmem
    obtain ⟨⟨s', distance⟩, -, r, -, hr⟩ := hmem
    exact r.le_of_column? hs hr

namespace Buffer

variable {b : Buffer} {offset maxDepth maxLines : Nat} {o : Placed} {outer : List Placed}

/-- The states are about the innermost lists around an offset, when the first of them starts near
enough. -/
theorem indentStates_noted (table : RuleTable) (hp : Phase .code b.placed)
    (hplain : Cursor.Plain b.placed) (hdepth : 1 ≤ maxDepth)
    (hopen : openBefore (b.cursorAt offset).before = o :: outer)
    (hnear : ((b.cursorAt offset).backwardSpace true).here.row < o.row + maxLines) :
    b.indentStates offset maxDepth maxLines table ≠ [] ∧
      ∃ front beyond, o :: outer = front ++ beyond ∧ List.Forall₂ (Describes table) front
        (b.indentStates offset maxDepth maxLines table).reverse := by
  have hstart := (b.in_cursorAt offset).backwardSpace true
  have hsame := Cursor.openBefore_backwardSpace true (b.cursorAt offset)
  rw [hopen] at hsame
  have hle := hstart.row_le (mem_of_openBefore_eq hsame)
  have hnoted : IndentWalk.Noted b table (o :: outer)
      (.new ((b.cursorAt offset).backwardSpace true) maxDepth) :=
    ⟨hstart, [], hsame.symm, .nil⟩
  have hnearing : IndentWalk.Nearing ((b.cursorAt offset).backwardSpace true).here.row maxLines
      (.new ((b.cursorAt offset).backwardSpace true) maxDepth) :=
    fun _ => ⟨hdepth, by omega, o, outer, hsame, hnear⟩
  have hne := hnearing.run hp hplain hnoted
  obtain ⟨front, hfront, hdescribes⟩ := (hnoted.run hp hplain).noted
  have hstates : b.indentStates offset maxDepth maxLines table =
      ((IndentWalk.new ((b.cursorAt offset).backwardSpace true) maxDepth).run table
        ((b.cursorAt offset).backwardSpace true).here.row maxLines).states := by
    simp only [indentStates, List.isEmpty_iff, hne, ↓reduceIte]
  rw [hstates]
  exact ⟨hne, front, _, hfront, hdescribes⟩

end Buffer

/-- What is noted about the lists around an offset, in any flushed buffer without marks and junk. When
the innermost list starts near enough, there is a state for it. The states describe the lists from the
innermost one out, which is the last, and leave out none in between. A new line goes behind the
bracket of its list, and not before where the first element of the list would stand. -/
theorem indentStates_describe {d : Document} (hd : d.buffer = .empty ∨ ∃ s, d.buffer = .ofText s)
    (ops : List BufferOp) :
    let b := (BufferOp.runAll ops d).buffer.flush
    (∀ q ∈ b.placed, q.kind ≠ .mark ∧ q.kind ≠ .junk) →
    ∀ (offset : Nat) (limits : IndentSettings) (o : Placed) (outer : List Placed),
      1 ≤ limits.maxDepth → openBefore (b.cursorAt offset).before = o :: outer →
      ((b.cursorAt offset).backwardSpace true).here.row < o.row + limits.maxLines →
      let states := b.indentStates offset limits.maxDepth limits.maxLines limits.rules
      1 ≤ states.length ∧
      (∀ j < states.length, ∃ p s, (o :: outer)[j]? = some p ∧
        states[states.length - 1 - j]? = some s ∧ Describes limits.rules p s) ∧
      (∀ s, states.getLast? = some s → s.startColumn ≤ b.indentAt offset limits) ∧
      o.token.offset < b.indentAt offset limits := by
  intro b hplain offset limits o outer hdepth hopen hnear states
  have hphase := BufferOp.phase_flush_runAll hd ops
  obtain ⟨hne, front, beyond, hfront, hdescribes⟩ :=
    b.indentStates_noted limits.rules hphase hplain hdepth hopen hnear
  have hpos : 1 ≤ states.length := List.length_pos_iff.2 hne
  have heach : ∀ j < states.length, ∃ p s, (o :: outer)[j]? = some p ∧
      states[states.length - 1 - j]? = some s ∧ Describes limits.rules p s :=
    fun j hj => describes_getElem? hfront hdescribes hj
  have hlast : ∀ s, states.getLast? = some s → s.startColumn ≤ b.indentAt offset limits ∧
      o.token.offset < b.indentAt offset limits := by
    intro s hs
    obtain ⟨p, s', hp, hs', hdescribe⟩ := heach 0 hpos
    rw [Nat.sub_zero, ← List.getLast?_eq_getElem?, hs] at hs'
    obtain rfl := Option.some.inj hs'
    obtain rfl : o = p := by simpa using hp
    have hle : s.startColumn ≤ b.indentAt offset limits :=
      le_indentColumn hs hdescribe.firstItemColumn
    have hmem := (b.in_cursorAt offset).before_mem (mem_of_openBefore_eq hopen)
    have hlength := List.length_pos_iff.2 (Buffer.raw_ne_nil_of_mem_placed hmem)
    have hstart := hdescribe.startColumn
    rw [Token.length] at hstart
    exact ⟨hle, by omega⟩
  obtain ⟨s, hs⟩ : ∃ s, states.getLast? = some s := ⟨_, List.getLast?_eq_some_getLast hne⟩
  exact ⟨hpos, heach, fun s hs => (hlast s hs).1, (hlast s hs).2⟩

/-- On a new line in a call in a `do`, the first of two states is about the `do`. -/
theorem indentStates_describe_do :
    let b := (BufferOp.runAll [.insertAt 8 ['\n'] none none]
      (.ofText "(do\n  (f".toList)).buffer.flush
    let states := b.indentStates 9 3 20 .builtin
    states.length = 2 ∧ 2 < b.indentAt 9 .default ∧ ∃ s, states[0]? = some s ∧
      Describes .builtin ⟨0, 0, 0, ⟨.opening, ['('], 0, .code⟩⟩ s := by
  intro b states
  have hopen : openBefore (b.cursorAt 9).before =
      [⟨1, 1, 6, ⟨.opening, ['('], 2, .code⟩⟩, ⟨0, 0, 0, ⟨.opening, ['('], 0, .code⟩⟩] := by
    decide +kernel
  have hlength : states.length = 2 := by decide +kernel
  obtain ⟨-, heach, -, hright⟩ := indentStates_describe (Or.inr ⟨_, rfl⟩ :
      (Document.ofText "(do\n  (f".toList).buffer = .empty ∨
        ∃ s, (Document.ofText "(do\n  (f".toList).buffer = .ofText s)
    [.insertAt 8 ['\n'] none none] (by decide +kernel) 9 .default _ _ (by decide) hopen
    (by decide +kernel)
  obtain ⟨p, s, hp, hs, hdescribe⟩ := heach 1 (hlength ▸ by decide)
  obtain rfl := Option.some.inj hp
  have hfirst : states.length - 1 - 1 = 0 := by rw [hlength]
  exact ⟨hlength, hright, s, hfirst ▸ hs, hdescribe⟩

end StructEdit
