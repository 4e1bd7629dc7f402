import StructEdit.Proofs.Cursor.Duality
import StructEdit.Proofs.Scan.Lexing

/-!
# Cursors among lexemes

Where a token stands is given by what comes before it. A cursor is therefore known by the kinds and
characters of the tokens on both sides, and so are the ways between cursors. This lets cursors in
two buffers be compared when only some tokens of the one are found in the other, at other offsets.
-/
namespace StructEdit

/-! ## Words with the same kinds -/

section Kinds

variable {weight : Kind → Int} {n : Int} {k : Nat} {ts us : List Placed}

theorem map_kind_of_lexeme (h : ts.map Placed.lexeme = us.map Placed.lexeme) :
    ts.map Placed.kind = us.map Placed.kind := by
  have := congrArg (List.map Prod.fst) h
  rwa [List.map_map, List.map_map] at this

theorem mem_of_map_kind {p : Kind → Prop} (h : ts.map Placed.kind = us.map Placed.kind)
    (hts : ∀ q ∈ ts, p q.kind) : ∀ q ∈ us, p q.kind := by
  intro q hq
  have hmem : q.kind ∈ ts.map Placed.kind := h ▸ List.mem_map_of_mem hq
  obtain ⟨r, hr, heq⟩ := List.mem_map.1 hmem
  exact heq ▸ hts r hr

theorem level_of_map_kind (h : ts.map Placed.kind = us.map Placed.kind) (hts : Level weight n ts) :
    Level weight n us := by
  induction ts generalizing n us with
  | nil =>
    obtain rfl : us = [] := List.map_eq_nil_iff.1 h.symm
    exact hts
  | cons q ts ih =>
    cases us with
    | nil => cases h
    | cons r us =>
      obtain ⟨hkind, hrest⟩ := List.cons.inj h
      rw [Level, hkind] at hts
      exact ⟨hts.1, ih hrest hts.2⟩

/-- Down to zero along a word that is level, the count goes on behind it. -/
theorem Level.falls (h : Level weight k ts) : Falls weight k ts := by
  intro m rest
  generalize hn : (k : Int) = n at h
  have hpos : 0 ≤ n := by omega
  clear hn
  induction ts generalizing n with
  | nil =>
    obtain rfl : n = 0 := h
    simp
  | cons q ts ih =>
    obtain ⟨hq, hrest⟩ := h
    have hsum : (m : Int) + n + weight q.kind = m + (n + weight q.kind) := by omega
    rw [List.cons_append, exit?_cons (by omega), hsum, ih _ hrest hq, Option.map_map]
    congr 1

theorem Expression.level (h : Expression ts) : Level Kind.ahead 0 ts := by
  cases h with
  | @atom q hq =>
    have : q.kind.ahead = 0 := by
      revert hq
      cases q.kind <;> decide
    simp [Level, this]
  | @string q z ws hq hws hz =>
    have hzero : ∀ r ∈ q :: ws, r.kind.ahead = 0 := by
      intro r hr
      rcases List.mem_cons.1 hr with rfl | hr
      · rw [hq]; rfl
      · have := hws r hr
        revert this
        cases r.kind <;> decide
    rw [level_skip_iff hzero (Int.le_refl 0), Level, hz]
    exact ⟨Int.le_refl 0, rfl⟩
  | @list q z us hq hus hz =>
    have hcloses : Closes (Kind.roleAhead true) 0 (us ++ [z]) :=
      ⟨us, z, rfl, by rw [hz]; rfl, by rwa [funext (weight_roleAhead true)]⟩
    have hlevel := hcloses.level
    rw [funext (weight_roleAhead true)] at hlevel
    rw [List.cons_append, Level, hq]
    exact ⟨by decide, by simpa [Kind.ahead] using hlevel⟩

theorem enclosed_of_map_kind {q z : Placed}
    (h : (q :: ts ++ [z]).map Placed.kind = us.map Placed.kind) :
    ∃ r vs y, us = r :: vs ++ [y] ∧ r.kind = q.kind ∧ ts.map Placed.kind = vs.map Placed.kind ∧
      y.kind = z.kind := by
  rw [List.cons_append, List.map_cons, List.map_append] at h
  obtain ⟨r, us, rfl, hr, hus⟩ := List.map_eq_cons_iff.1 h.symm
  obtain ⟨vs, ys, rfl, hvs, hys⟩ := List.map_eq_append_iff.1 hus
  obtain ⟨y, rfl, hy⟩ := List.map_eq_singleton_iff.1 hys
  exact ⟨r, vs, y, rfl, hr, hvs.symm, hy⟩

theorem Expression.of_map_kind (hts : Expression ts)
    (h : ts.map Placed.kind = us.map Placed.kind) : Expression us := by
  cases hts with
  | atom hq =>
    obtain ⟨r, rfl, hr⟩ := List.map_eq_singleton_iff.1 h.symm
    exact .atom (hr ▸ hq)
  | string hq hws hz =>
    obtain ⟨r, vs, y, rfl, hr, hvs, hy⟩ := enclosed_of_map_kind h
    have hinner := mem_of_map_kind (p := fun k => k.isInner = true) hvs hws
    exact .string (hr.trans hq) hinner (hy.trans hz)
  | list hq hws hz =>
    obtain ⟨r, vs, y, rfl, hr, hvs, hy⟩ := enclosed_of_map_kind h
    exact .list (hr.trans hq) (level_of_map_kind hvs hws) (hy.trans hz)

theorem exit?_of_map_kind (h : ts.map Placed.kind = us.map Placed.kind) :
    exit? weight n ts = exit? weight n us := by
  induction ts generalizing n us with
  | nil =>
    obtain rfl : us = [] := List.map_eq_nil_iff.1 h.symm
    rfl
  | cons q ts ih =>
    obtain ⟨r, us, rfl, hr, hus⟩ := List.map_eq_cons_iff.1 h.symm
    rw [exit?, exit?, hr, ih hus.symm]

theorem Falls.of_map_kind (hts : Falls weight k ts)
    (h : ts.map Placed.kind = us.map Placed.kind) : Falls weight k us := by
  intro m rest
  have hrest : (us ++ rest).map Placed.kind = (ts ++ rest).map Placed.kind := by
    rw [List.map_append, List.map_append, h]
  have hlen := congrArg List.length h
  rw [List.length_map, List.length_map] at hlen
  rw [exit?_of_map_kind hrest, hts m rest, hlen]

end Kinds

/-! ## Parting the tokens -/

namespace Cursor

variable {b : Buffer} {c d : Cursor} {ls ms rs : List Lexeme} {x : Lexeme} {n : Nat}
  {ts : List Placed}

/-- The cursor parts the tokens of the buffer: the first list is behind it, and the second starts
with the token that it stands on. -/
structure Parts (c : Cursor) (b : Buffer) (ls rs : List Lexeme) : Prop where
  mem : c.In b
  behind : c.before.reverse.map Placed.lexeme = ls
  ahead : (c.here :: c.after).map Placed.lexeme = rs

theorem In.parts (h : c.In b) : c.Parts b (c.before.reverse.map Placed.lexeme)
    ((c.here :: c.after).map Placed.lexeme) := ⟨h, rfl, rfl⟩

theorem Parts.placed (h : c.Parts b ls rs) : b.placed.map Placed.lexeme = ls ++ rs := by
  rw [← h.mem, toList, List.map_append, h.behind, h.ahead]

theorem exists_parts (b : Buffer) (ls rs : List Lexeme)
    (h : b.placed.map Placed.lexeme = ls ++ rs) (hrs : rs ≠ []) :
    ∃ c : Cursor, c.Parts b ls rs := by
  obtain ⟨ps, qs, hplaced, rfl, rfl⟩ := List.map_eq_append_iff.1 h
  obtain ⟨q, qs, rfl⟩ := List.exists_cons_of_ne_nil fun hnil => hrs (List.map_eq_nil_iff.2 hnil)
  exact ⟨⟨ps.reverse, q, qs⟩, by simp [In, toList, hplaced], by simp, rfl⟩

theorem Parts.here (h : c.Parts b ls (x :: rs)) : c.kind = x.1 ∧ c.raw = x.2 := by
  obtain ⟨hx, -⟩ := List.cons.inj h.ahead
  exact ⟨congrArg Prod.fst hx, congrArg Prod.snd hx⟩

theorem Parts.prevKind (h : c.Parts b (ls ++ [x]) rs) : c.prevKind = x.1 := by
  have hbehind := congrArg List.reverse h.behind
  rw [← List.map_reverse, List.reverse_reverse, List.reverse_append] at hbehind
  obtain ⟨q, qs, hbefore, hq, -⟩ := List.map_eq_cons_iff.1 hbehind
  rw [Cursor.prevKind, hbefore]
  exact congrArg Prod.fst hq

theorem Parts.start (h : c.Parts b ls rs) : c.start = (spell ls).length := by
  rw [h.mem.abut.1, ← spell_map_lexeme, h.behind]

theorem Parts.take_text (h : c.Parts b ls rs) : b.text.take c.start = spell ls := by
  rw [h.mem.take_text, ← spell_map_lexeme, h.behind]

theorem Parts.drop_text (h : c.Parts b ls rs) : b.text.drop c.start ++ ['\n'] = spell rs := by
  have hall := congrArg spell h.placed
  rw [spell_map_lexeme, b.rawText_placed, spell_append, ← h.take_text] at hall
  refine (List.append_right_inj (b.text.take c.start)).1 ?_
  rw [← List.append_assoc, List.take_append_drop, hall]

/-- The way between two cursors. -/
theorem In.exists_span (hc : c.In b) (hd : d.In b) (hle : c.start ≤ d.start) :
    ∃ ts, Span c d ts := by
  rcases Nat.eq_or_lt_of_le hle with heq | hlt
  · exact ⟨[], hc.eq_of_start hd heq ▸ .refl c⟩
  have hlen := hc.before_length_lt hd hlt
  rw [← List.length_reverse, ← @List.length_reverse _ d.before] at hlen
  rcases List.append_eq_append_iff.1 (hc.trans hd.symm) with ⟨ts, h₁, h₂⟩ | ⟨ts, h₁, -⟩
  · exact ⟨ts, h₁, h₂⟩
  · rw [h₁, List.length_append] at hlen
    omega

theorem Parts.span (hc : c.Parts b ls (ms ++ rs)) (hd : d.Parts b (ls ++ ms) rs) :
    ∃ ts, Span c d ts ∧ ts.map Placed.lexeme = ms := by
  obtain ⟨ts, hspan⟩ := hc.mem.exists_span hd.mem (by
    rw [hc.start, hd.start, spell_append, List.length_append]
    exact Nat.le_add_right _ _)
  refine ⟨ts, hspan, ?_⟩
  have hbehind := hd.behind
  rw [hspan.behind, List.map_append, hc.behind] at hbehind
  exact List.append_cancel_left hbehind

theorem Parts.of_span (hc : c.Parts b ls rs) (hspan : Span c d ts) (hd : d.In b) :
    d.Parts b (ls ++ ts.map Placed.lexeme) ((d.here :: d.after).map Placed.lexeme) ∧
      rs = ts.map Placed.lexeme ++ (d.here :: d.after).map Placed.lexeme := by
  refine ⟨⟨hd, ?_, rfl⟩, ?_⟩
  · rw [hspan.behind, List.map_append, hc.behind]
  · rw [← hc.ahead, hspan.ahead, List.map_append]

theorem Parts.cursorAt (h : c.Parts b ls (x :: rs)) (hlow : (spell ls).length ≤ n)
    (hhigh : n < (spell ls).length + x.2.length) : b.cursorAt n = c :=
  h.mem.cursorAt_eq_of_lt (h.start ▸ hlow) (by rw [h.start, h.here.2]; exact hhigh)

theorem Parts.next (h : c.Parts b ls (x :: rs)) (hk : c.kind ≠ .lineEnd) :
    c.next.Parts b (ls ++ [x]) rs ∧ c.next.start = c.start + c.raw.length := by
  obtain ⟨hspan, hstart⟩ := h.mem.next_of_kind hk
  obtain ⟨hparts, hahead⟩ := h.of_span hspan h.mem.next
  obtain ⟨rfl, rfl⟩ := List.cons.inj hahead
  exact ⟨hparts, by rw [hstart, h.mem.stop_eq hk]⟩

theorem prevToken_of_lexeme (h : c.before.map Placed.lexeme = d.before.map Placed.lexeme) :
    c.prevKind = d.prevKind ∧ c.prevToken.raw = d.prevToken.raw := by
  obtain ⟨before, here, after⟩ := c
  obtain ⟨before', here', after'⟩ := d
  cases before with
  | nil =>
    obtain rfl : before' = [] := List.map_eq_nil_iff.1 h.symm
    exact ⟨rfl, rfl⟩
  | cons q before =>
    obtain ⟨r, rest, rfl, hr, -⟩ := List.map_eq_cons_iff.1 h.symm
    exact ⟨(congrArg Prod.fst hr).symm, (congrArg Prod.snd hr).symm⟩

theorem Parts.exists_last (h : c.Parts b ls rs) (hk : c.prevKind ≠ .lineEnd) :
    ∃ ts y, ls = ts ++ [y] ∧ y.1 = c.prevKind := by
  obtain ⟨before, here, after⟩ := c
  cases before with
  | nil => exact absurd rfl hk
  | cons q before =>
    refine ⟨before.reverse.map Placed.lexeme, q.lexeme, ?_, rfl⟩
    rw [← h.behind]
    simp

/-! ## Motions -/

/-- Forward over blanks, up to what is no blank. -/
theorem Span.forwardSpace {comments : Bool} (h : Span c d ts)
    (hskip : ∀ q ∈ ts, q.kind.isSkipped comments = true)
    (hstop : d.kind.isSkipped comments = false) : c.forwardSpace comments = d := by
  obtain ⟨before, here, after⟩ := c
  induction ts generalizing before here after with
  | nil =>
    rw [h.eq_of_nil]
    exact forwardSpace_of_not_skipped hstop
  | cons q ts ih =>
    obtain ⟨rfl, m, rest, rfl, hrest⟩ := h.uncons
    rw [Cursor.forwardSpace, spaceAhead, if_pos (hskip here List.mem_cons_self)]
    exact ih (fun r hr => hskip r (List.mem_cons_of_mem here hr)) _ _ _ hrest

/-- Back over blanks, up to what is no blank. There is no comment whose line end could not be
skipped. -/
theorem Span.backwardSpace {comments : Bool} (h : Span c d ts)
    (hskip : ∀ q ∈ ts, q.kind.isSkipped comments = true)
    (hcomment : ∀ q ∈ d.before, q.kind ≠ .comment)
    (hstop : c.prevKind.isSkipped comments = false) : d.backwardSpace comments = c := by
  obtain ⟨before, here, after⟩ := d
  rw [← List.reverse_reverse ts] at h hskip
  generalize ts.reverse = us at h hskip
  induction us generalizing before here after with
  | nil =>
    rw [← h.eq_of_nil]
    exact backwardSpace_of_not_skipped hstop
  | cons q us ih =>
    obtain ⟨rest, rfl, hrest⟩ := h.unconcat
    have hq : q.kind.isSkipped comments = true := hskip q (by simp)
    have hbehind : kindBefore rest ≠ .comment := by
      cases rest with
      | nil => simp [kindBefore]
      | cons r rest => exact hcomment r (by simp)
    rw [Cursor.backwardSpace, spaceBehind, if_pos (Or.inr ⟨hq, hbehind⟩)]
    exact ih _ _ _ (fun r hr => hcomment r (List.mem_cons_of_mem q hr)) hrest
      fun r hr => hskip r (by simp at hr ⊢; exact Or.inl hr)

/-- Right behind an opening bracket, the way back out of the list ends at once. -/
theorem backwardList?_of_opening (h : c.prevKind = .opening) : c.backwardList? = some c := by
  have hstay : c.backwardSpace false = c := backwardSpace_of_not_skipped (by rw [h]; rfl)
  have hmove : c.backwardSexp false = ⟨false, c⟩ := by
    simp only [backwardSexp, hstay, h, ↓reduceIte]
  have hsexps : c.backwardSexps false = c := by
    rw [backwardSexps]
    simp [hmove]
  simp [backwardList?, hsexps, h]

/-- Where there are no comments, a search for an expression need not be told what to do about
them. -/
theorem sexpAhead_of_no_comment {depth : Nat} {before : List Placed} {here : Placed}
    {after : List Placed} (h : ∀ q ∈ here :: after, q.kind ≠ .comment) :
    sexpAhead false depth before here after = sexpAhead true depth before here after := by
  have hrole : here.kind.roleAhead false = here.kind.roleAhead true := by
    have := h here List.mem_cons_self
    revert this
    cases here.kind <;> decide
  induction after generalizing depth before here with
  | nil => rfl
  | cons n after ih =>
    have hrest : ∀ q ∈ n :: after, q.kind ≠ .comment :=
      fun q hq => h q (List.mem_cons_of_mem here hq)
    have hn : n.kind.roleAhead false = n.kind.roleAhead true := by
      have := hrest n List.mem_cons_self
      revert this
      cases n.kind <;> decide
    simp only [sexpAhead, hrole, ih hrest hn]

/-- In front of an expression, and where there are no comments, it makes no difference what is done
about comments. -/
theorem forwardSexp_of_no_comment (hk : c.kind.starts = true)
    (h : ∀ q ∈ c.here :: c.after, q.kind ≠ .comment) :
    c.forwardSexp false = c.forwardSexp true := by
  have hkind : c.kind.isSkipped false = false ∧ c.kind ≠ .closing := by
    revert hk
    cases c.kind <;> decide
  rw [forwardSexp_of_starts hk, ← sexpAhead_of_no_comment h]
  simp only [forwardSexp, forwardSpace_of_not_skipped hkind.1, if_neg hkind.2]

/-- From the start of an expression, the motion that goes over comments leads behind it. -/
theorem forwardSexp_of_expression (h : Expression ts) (hspan : Span c d ts)
    (hahead : ∀ q ∈ c.here :: c.after, q.kind ≠ .comment) : c.forwardSexp false = ⟨true, d⟩ := by
  have hstarts : c.kind.starts = true := by
    obtain ⟨q, qs, rfl, hstarts⟩ := h.head
    obtain ⟨hhere, -⟩ := List.cons.inj hspan.ahead
    rw [kind, hhere]
    exact hstarts
  rw [forwardSexp_of_no_comment hstarts hahead, forwardSexp_expression h hspan]

section Plain

variable (hp : Phase .code b.placed) (hplain : Plain b.placed)
include hp hplain

theorem In.forwardList?_of_falls (h : c.In b) (hspan : Span c d ts) (hfalls : Falls Kind.ahead 0 ts)
    (hk : d.kind = .closing) : c.forwardList? = some d := by
  have hweight : d.here.kind.ahead = -1 := congrArg Kind.ahead hk
  rw [h.forwardList?_eq_exit hp hplain, hspan.ahead, hfalls.exit_some hweight, Option.map_some,
    ← hspan.eq_forward]

theorem In.backwardList?_of_falls (h : c.In b) (hspan : Span d c ts)
    (hfalls : Falls Kind.behind 0 ts.reverse) (hk : d.prevKind = .opening) :
    c.backwardList? = some d := by
  obtain ⟨q, qs, hbefore⟩ : ∃ q qs, d.before = q :: qs := by
    cases hb : d.before with
    | nil => simp [Cursor.prevKind, hb, kindBefore] at hk
    | cons q qs => exact ⟨q, qs, rfl⟩
  have hweight : q.kind.behind = -1 := by
    rw [Cursor.prevKind, hbefore] at hk
    exact congrArg Kind.behind hk
  rw [h.backwardList?_eq_exit hp hplain, hspan.before_eq, hbefore, hfalls.exit_some hweight,
    Option.map_some, List.length_reverse, ← hspan.eq_back]

end Plain

/-! ## The same tokens ahead -/

section Alike

variable {b' : Buffer}

/-- The same tokens lie ahead of both cursors. -/
def Alike (c d : Cursor) : Prop :=
  (c.here :: c.after).map Placed.lexeme = (d.here :: d.after).map Placed.lexeme

theorem Alike.symm (h : Alike c d) : Alike d c := Eq.symm h

theorem Alike.here (h : Alike c d) : c.kind = d.kind ∧ c.raw = d.raw := by
  obtain ⟨hhere, -⟩ := List.cons.inj h
  exact ⟨congrArg Prod.fst hhere, congrArg Prod.snd hhere⟩

theorem Alike.next (h : Alike c d) : Alike c.next d.next := by
  obtain ⟨before, here, after⟩ := c
  obtain ⟨before', here', after'⟩ := d
  cases after with
  | nil =>
    obtain rfl : after' = [] := List.map_eq_nil_iff.1 (List.cons.inj h).2.symm
    exact h
  | cons n after =>
    cases after' with
    | nil => cases (List.cons.inj h).2
    | cons n' after' => exact (List.cons.inj h).2

theorem Alike.forwardSpace (h : Alike c d) (comments : Bool) :
    Alike (c.forwardSpace comments) (d.forwardSpace comments) := by
  obtain ⟨before, here, after⟩ := c
  obtain ⟨before', here', after'⟩ := d
  induction after generalizing before here before' here' after' with
  | nil =>
    obtain rfl : after' = [] := List.map_eq_nil_iff.1 (List.cons.inj h).2.symm
    exact h
  | cons n after ih =>
    cases after' with
    | nil => cases (List.cons.inj h).2
    | cons n' after' =>
      have hkind : here.kind = here'.kind := h.here.1
      simp only [Cursor.forwardSpace, spaceAhead, hkind]
      split
      · exact ih _ n _ n' after' h.next
      · exact h

theorem Alike.sexpAhead {before before' : List Placed} {here here' : Placed}
    {after after' : List Placed} (h : Alike ⟨before, here, after⟩ ⟨before', here', after'⟩)
    (comments : Bool) (depth : Nat) :
    (sexpAhead comments depth before here after).found =
        (sexpAhead comments depth before' here' after').found ∧
      Alike (sexpAhead comments depth before here after).cursor
        (sexpAhead comments depth before' here' after').cursor := by
  induction after generalizing depth before here before' here' after' with
  | nil =>
    obtain rfl : after' = [] := List.map_eq_nil_iff.1 (List.cons.inj h).2.symm
    exact ⟨rfl, h⟩
  | cons n after ih =>
    cases after' with
    | nil => cases (List.cons.inj h).2
    | cons n' after' =>
      have hkind : here.kind = here'.kind := h.here.1
      have hnext : Alike ⟨here :: before, n, after⟩ ⟨here' :: before', n', after'⟩ := h.next
      simp only [Cursor.sexpAhead, hkind]
      generalize here'.kind.roleAhead comments = role
      cases role with
      | pass => exact ih hnext depth
      | enter => exact ih hnext (depth + 1)
      | leave =>
        dsimp only
        split
        · exact ⟨rfl, hnext⟩
        · exact ih hnext (depth - 1)
      | atom =>
        dsimp only
        split
        · exact ⟨rfl, hnext⟩
        · exact ih hnext depth
      | note =>
        dsimp only
        split
        · exact ⟨rfl, hnext.next⟩
        · exact ih hnext depth

theorem Alike.forwardSexp (h : Alike c d) (comments : Bool) :
    (c.forwardSexp comments).found = (d.forwardSexp comments).found ∧
      Alike (c.forwardSexp comments).cursor (d.forwardSexp comments).cursor := by
  have hspace := h.forwardSpace comments
  simp only [Cursor.forwardSexp, hspace.here.1]
  split
  · exact ⟨rfl, hspace⟩
  · exact hspace.sexpAhead comments 0

theorem Alike.forwardSexps (h : Alike c d) (comments : Bool) :
    Alike (c.forwardSexps comments) (d.forwardSexps comments) := by
  fun_induction Cursor.forwardSexps comments c generalizing d with
  | case1 c hfound hlt ih =>
    obtain ⟨hsame, hcursor⟩ := h.forwardSexp comments
    have hstep : d.forwardSexps comments =
        (d.forwardSexp comments).cursor.forwardSexps comments := by
      rw [Cursor.forwardSexps, dif_pos (hsame ▸ hfound)]
    rw [hstep]
    exact ih hcursor
  | case2 c hfound =>
    obtain ⟨hsame, hcursor⟩ := h.forwardSexp comments
    have hstep : d.forwardSexps comments = (d.forwardSexp comments).cursor := by
      rw [Cursor.forwardSexps, dif_neg (hsame ▸ hfound)]
    rw [hstep]
    exact hcursor

/-- A motion that goes ahead depends on nothing that lies behind. -/
theorem Alike.forwardList? (h : Alike c d) {e : Cursor} (he : c.forwardList? = some e) :
    ∃ e', d.forwardList? = some e' ∧ Alike e e' := by
  have hsexps := h.forwardSexps true
  simp only [Cursor.forwardList?, hsexps.here.1] at he ⊢
  split at he
  · rename_i hk
    obtain rfl := Option.some.inj he
    exact ⟨_, if_pos hk, hsexps⟩
  · cases he

/-- Neither behind an opening bracket nor at the start of a buffer does a line end stand in a
string. -/
theorem Alike.withinString_firstCursor (h : Alike c b.firstCursor) (hk : c.prevKind = .opening) :
    c.withinString = b.firstCursor.withinString := by
  have hprev : b.firstCursor.prevKind = .lineEnd := by rw [prevKind, b.before_firstCursor]; rfl
  rw [withinString, withinString, h.here.1, hk, hprev]
  rfl

theorem Alike.drop_text (h : Alike c d) (hc : c.In b) (hd : d.In b') :
    b.text.drop c.start = b'.text.drop d.start := by
  have hleft := hc.parts.drop_text
  have hright := hd.parts.drop_text
  rw [show (c.here :: c.after).map Placed.lexeme = _ from h, ← hright] at hleft
  exact List.append_cancel_right hleft

end Alike
end Cursor
end StructEdit
