import StructEdit.Proofs.Document.Carrying
import StructEdit.Proofs.Scan.Seams

/-!
# Barfing what has been slurped

A barf is given a text and a caret, and knows nothing of the slurp before it. That it undoes the
slurp rests on two facts. The bracket that has gone over an expression leaves all other tokens as
they were, because it is not drawn into any of them and those that now meet are kept apart by a
blank or a line end. And from the caret in the new text, the motions out of the list, back over the
expression, and over the blanks before it come to stand where the bracket stood.
-/
namespace StructEdit

/-! ## Tokens in another order -/

namespace Mode

variable {t : Text} {ts us vs : List Lexeme} {p x y : Lexeme}

/-- An expression starts in code. -/
theorem Reads.place_of_starts (h : Mode.code.Reads t (ts ++ x :: us)) (hx : x.1.starts = true) :
    Place.code.after (spell ts) = .code := by
  have hadmits := (h.suits (agrees_place .code _)).2.admits
  revert hadmits hx
  show (_ → (Place.code.after (spell ts)).admits x.1 = true → _)
  generalize Place.code.after (spell ts) = q
  generalize x.1 = k
  cases q <;> cases k <;> decide

/-- An expression ends in code. -/
theorem Reads.place_of_ends (h : Mode.code.Reads t (ts ++ x :: us)) (hx : x.1.ends = true) :
    Place.code.after (spell (ts ++ [x])) = .code := by
  have hsuits := (h.suits (agrees_place .code _)).2
  have hadmits := hsuits.admits
  have hafter := hsuits.after
  rw [spell_append, Place.after_append, spell_cons, spell_nil, List.append_nil]
  refine hafter.trans ?_
  revert hadmits hx
  generalize Place.after _ (spell ts) = q
  generalize x.1 = k
  cases q <;> cases k <;> decide

/-- A closing bracket goes over tokens that start with a space, away from what is none. -/
theorem Reads.closing_forward
    (h : Mode.code.Reads t ((ts ++ [x]) ++ p :: ((y :: us) ++ vs))) (hp : p.1 = .closing)
    (hplace : Place.code.after (spell ((ts ++ [x]) ++ p :: (y :: us))) = .code)
    (hx : x.1.isSpace = false) (hy : y.1.isSpace = true) :
    Mode.code.Reads t ((ts ++ [x]) ++ ((y :: us) ++ p :: vs)) := by
  have hclosers := (h.suits (agrees_place .code _)).2.closing hp
  obtain ⟨hleft, hbracket, hrest⟩ := h.bracket (Or.inr hp)
  have hmid : Place.code.after (spell (y :: us)) = .code := by
    rw [spell_append, Place.after_append, hleft.place, ← List.singleton_append, spell_append,
      Place.after_append, hbracket.place] at hplace
    exact hplace
  obtain ⟨hmid, hright⟩ := hrest.stretch hmid
  refine hleft.append (hmid.append (hbracket.append hright fun hseam => ?_) fun hseam => ?_)
    fun hseam => ?_
  · exact hseam.false_of_last (show [p] = [] ++ [p] from rfl) (Or.inr (Or.inl hp))
  · have hall : ∀ o ∈ Bracket.closers, o = [o.headD ' '] ∧ o.headD ' ' ∈ [')', ']', '\x7d'] := by
      decide
    obtain ⟨hc, hmem⟩ := hall _ hclosers
    rw [spell_cons, hc] at hseam
    exact hseam.false_of_closer hmid.place rfl hmem
  · obtain ⟨t₀, hreads⟩ := hmid.reads
    refine hseam.false_of_space (y := y) hleft.place (s := spell (us ++ p :: vs) ++ t) ?_
      (hreads.raw_ne_nil y List.mem_cons_self) hreads.shape hreads.lineEnd (by rw [hx, hy]; simp)
    rw [List.cons_append, spell_cons, List.append_assoc]

/-- An opening bracket goes back over tokens that end with a space, away from what is none. -/
theorem Reads.opening_backward
    (h : Mode.code.Reads t (ts ++ ((us ++ [x]) ++ p :: y :: vs))) (hp : p.1 = .opening)
    (hplace : Place.code.after (spell ts) = .code) (hmark : ∀ z ∈ ts, z.1 ≠ .mark)
    (hx : x.1.isSpace = true) (hy : y.1.isSpace = false) :
    Mode.code.Reads t (ts ++ p :: ((us ++ [x]) ++ y :: vs)) := by
  obtain ⟨hleft, hrest⟩ := h.stretch hplace
  have hopeners := (hrest.suits (agrees_place .code _)).2.opening hp
  obtain ⟨hmid, hbracket, hright⟩ := hrest.bracket (Or.inl hp)
  refine hleft.append (hbracket.append (hmid.append hright fun hseam => ?_) fun hseam => ?_)
    fun hseam => ?_
  · refine hseam.false_of_space (y := y) hmid.place (s := spell vs ++ t) ?_
      (hright.raw_ne_nil y List.mem_cons_self) hright.shape hright.lineEnd (by rw [hx, hy]; simp)
    rw [spell_cons, List.append_assoc]
  · exact hseam.false_of_last (show [p] = [] ++ [p] from rfl) (Or.inl hp)
  · rw [spell_cons, List.append_assoc] at hseam
    obtain ⟨z, hz, hkind⟩ := hseam.mark_of_opener hleft.place hopeners rfl
    refine hmark z ?_ hkind
    rw [hseam.bridges.tokens]
    exact List.mem_append_right _ hz

end Mode

namespace Cursor

variable {b : Buffer} {c e : Cursor}

/-- What starts an expression, where there is nothing else. -/
theorem starts_of_isFinal {p : Place} {k : Kind} (hfinal : p.isFinal = true)
    (hadmits : p.admits k = true) (hstop : k.isSkipped false = false) (hclosing : k ≠ .closing)
    (hplain : k ≠ .mark ∧ k ≠ .junk ∧ k ≠ .comment) : k.starts = true := by
  revert hfinal hadmits hstop hclosing hplain
  cases p <;> cases k <;> decide

/-- What ends an expression, where there is nothing else. -/
theorem ends_of_isFinal {p : Place} {k : Kind} (hfinal : (p.pass k).isFinal = true)
    (hadmits : p.admits k = true) (hspace : k.isSpace = false) (hopening : k ≠ .opening)
    (hplain : k ≠ .mark ∧ k ≠ .junk ∧ k ≠ .comment) : k.ends = true := by
  revert hfinal hadmits hspace hopening hplain
  cases p <;> cases k <;> decide

theorem plain_of_bare {ts : List Placed}
    (h : ∀ q ∈ ts, q.kind ≠ .mark ∧ q.kind ≠ .junk ∧ q.kind ≠ .comment) : Plain ts :=
  fun q hq => ⟨(h q hq).1, (h q hq).2.1⟩

section Plain

variable (hp : Phase .code b.placed)
include hp

theorem In.isFinal_of_skipped {comments : Bool} {us : List Placed} (hc : c.In b) (he : e.In b)
    (hspan : Span c e us) (hskip : ∀ q ∈ us, q.kind.isSkipped comments = true) :
    (b.text.placeAt e.start).isFinal = (b.text.placeAt c.start).isFinal := by
  obtain ⟨-, -, hphase⟩ := hc.phase hp
  rw [hspan.ahead, phase_append] at hphase
  rw [(hc.fencesBetween he hp hspan).2.2, isFinal_along_skipped hskip hphase.1]

variable (hplain : ∀ q ∈ b.placed, q.kind ≠ .mark ∧ q.kind ≠ .junk ∧ q.kind ≠ .comment)
include hplain

omit hp in
theorem In.no_comment_ahead (h : c.In b) : ∀ q ∈ c.here :: c.after, q.kind ≠ .comment := by
  intro q hq
  refine (hplain q ?_).2.2
  rw [← h, toList]
  exact List.mem_append_right _ hq

omit hp in
theorem In.no_comment_behind (h : c.In b) : ∀ q ∈ c.before, q.kind ≠ .comment := by
  intro q hq
  refine (hplain q ?_).2.2
  rw [← h, toList]
  exact List.mem_append_left _ (List.mem_reverse.2 hq)

/-- Behind the spaces, a motion that finds something finds what starts an expression. -/
theorem In.starts_of_forwardSexp (h : c.In b) (hcode : b.text.placeAt c.start = .code)
    (hf : (c.forwardSexp false).found = true) : (c.forwardSpace false).kind.starts = true := by
  obtain ⟨us, hspan, hskip⟩ := span_forwardSpace false c
  have hin := h.forwardSpace false
  have hmove := forwardSexp_of_found hf
  rw [sexpAhead_of_no_comment (hin.no_comment_ahead hplain)] at hmove
  have hstop : (c.forwardSpace false).kind.isSkipped false = false := by
    refine (forwardSpace_stops false c).resolve_right fun hnil => ?_
    rw [hmove, hnil] at hf
    simp [sexpAhead] at hf
  have hclosing : (c.forwardSpace false).kind ≠ .closing := by
    intro hk
    rw [Cursor.forwardSexp, if_pos hk] at hf
    simp at hf
  have hfinal := h.isFinal_of_skipped hp hin hspan hskip
  rw [hcode] at hfinal
  exact starts_of_isFinal hfinal (hin.phase hp).2.2.1.admits hstop hclosing (hplain _ hin.here_mem)

/-- A motion goes over spaces and then over an expression. -/
theorem In.forwardSexp_blanks (h : c.In b) (hcode : b.text.placeAt c.start = .code)
    (hf : (c.forwardSexp false).found = true) :
    ∃ f us ts, f.In b ∧ Span c f us ∧ (∀ q ∈ us, q.kind.isSkipped false = true) ∧
      Span f (c.forwardSexp false).cursor ts ∧ Expression ts := by
  obtain ⟨us, hspan, hskip⟩ := span_forwardSpace false c
  have hin := h.forwardSpace false
  have hstarts := h.starts_of_forwardSexp hp hplain hcode hf
  have hmove := forwardSexp_of_found hf
  rw [sexpAhead_of_no_comment (hin.no_comment_ahead hplain), ← forwardSexp_of_starts hstarts]
    at hmove
  rw [hmove] at hf ⊢
  obtain ⟨ts, hts, hspan'⟩ := hin.expression_ahead hp hstarts hf
  exact ⟨_, us, ts, hin, hspan, hskip, hspan', hts⟩

/-- In front of the spaces, a motion back that finds something finds what ends an expression. -/
theorem In.ends_of_backwardSexp (h : c.In b) (hcode : b.text.placeAt c.start = .code)
    (hf : (c.backwardSexp false).found = true) : (c.backwardSpace false).prevKind.ends = true := by
  obtain ⟨us, hspan, hskip, -⟩ := span_backwardSpace false c
  have hin := h.backwardSpace false
  have hmove := backwardSexp_of_found hf
  obtain ⟨q, qs, hbefore⟩ : ∃ q qs, (c.backwardSpace false).before = q :: qs := by
    refine List.exists_cons_of_ne_nil fun hnil => ?_
    rw [hmove, hnil] at hf
    simp [sexpBehind] at hf
  have hcomment := hin.no_comment_behind hplain
  rw [hbefore] at hcomment
  obtain ⟨hblank, hline⟩ := c.settles_backwardSpace q qs hbefore
  have hspace : q.kind.isSpace = false := by
    have hnoline : q.kind ≠ .lineEnd := by
      intro hk
      have hnote := hline hk
      cases qs with
      | nil => simp [kindBefore] at hnote
      | cons r qs => exact hcomment r (by simp) hnote
    revert hblank hnoline
    cases q.kind <;> decide
  have hopening : q.kind ≠ .opening := by
    intro hk
    rw [Cursor.backwardSexp, if_pos (by rw [prevKind, hbefore]; exact hk)] at hf
    simp at hf
  have hfinal := hin.isFinal_of_skipped hp h hspan hskip
  obtain ⟨hbehind, halong, -⟩ := hin.phase hp
  rw [hbefore, List.reverse_cons, phase_append] at hbehind
  rw [hbefore, List.reverse_cons, Place.along_append] at halong
  rw [hcode, ← halong] at hfinal
  have hmem : q ∈ b.placed := by
    rw [← hin, toList, hbefore]
    simp
  rw [prevKind, hbefore]
  exact ends_of_isFinal hfinal.symm hbehind.2.1.admits hspace hopening (hplain q hmem)

/-- A motion back goes over spaces and then over an expression. -/
theorem In.backwardSexp_blanks (h : c.In b) (hcode : b.text.placeAt c.start = .code)
    (hf : (c.backwardSexp false).found = true) :
    ∃ f us ts, f.In b ∧ Span f c us ∧ (∀ q ∈ us, q.kind.isSkipped false = true) ∧
      Span (c.backwardSexp false).cursor f ts ∧ Expression ts := by
  obtain ⟨us, hspan, hskip, -⟩ := span_backwardSpace false c
  have hin := h.backwardSpace false
  have hends := h.ends_of_backwardSexp hp hplain hcode hf
  have hmove := backwardSexp_of_found hf
  rw [← backwardSexp_of_ends hends] at hmove
  rw [hmove] at hf ⊢
  obtain ⟨ts, hts, hspan'⟩ := hin.expression_behind hp hends hf
  exact ⟨_, us, ts, hin, hspan, hskip, hspan', hts⟩

end Plain
end Cursor

namespace Document

open Cursor

variable {d : Document} {e f : Cursor} {ls ms rs : List Lexeme} {x : Lexeme}

/-! ## What a slurp goes over -/

/-- Tokens between the caret and the end of its list, the spaces behind it, and an expression behind
the spaces; or all this the other way round. -/
structure Reach (kept : List Placed → Prop) (W U X : List Lexeme) : Prop where
  inside : ∃ ws, kept ws ∧ ws.map Placed.lexeme = W
  space : ∀ x ∈ U, x.1.isSkipped false = true
  expression : ∃ xs, Expression xs ∧ xs.map Placed.lexeme = X

variable {W U X : List Lexeme} {y : Lexeme}

theorem Reach.ends {kept : List Placed → Prop} (h : Reach kept W U X) :
    ∃ zs z, X = zs ++ [z] ∧ z.1.ends = true := by
  obtain ⟨xs, hxs, rfl⟩ := h.expression
  obtain ⟨q, qs, hrev, hq⟩ := hxs.last
  rw [← List.reverse_reverse xs, hrev, List.reverse_cons, List.map_append]
  exact ⟨_, _, rfl, hq⟩

theorem Reach.starts {kept : List Placed → Prop} (h : Reach kept W U X) :
    ∃ z zs, X = z :: zs ∧ z.1.starts = true := by
  obtain ⟨xs, hxs, rfl⟩ := h.expression
  obtain ⟨q, qs, rfl, hq⟩ := hxs.head
  exact ⟨_, _, rfl, hq⟩

/-- The closing bracket goes over the spaces and the expression behind it. -/
theorem Reach.closing_forward {kept : List Placed → Prop} (h : Reach kept W U X) {t : Text}
    {u : Lexeme} {us : List Lexeme} (hreads : Mode.code.Reads t (ls ++ x :: ((U ++ X) ++ rs)))
    (hx : x.1 = .closing) (hlast : ls = ms ++ [y]) (hy : y.1.isSpace = false)
    (hfirst : U ++ X = u :: us) (hu : u.1.isSpace = true) :
    Mode.code.Reads t (ls ++ ((U ++ X) ++ x :: rs)) := by
  obtain ⟨zs, z, hzs, hz⟩ := h.ends
  have hplace : Place.code.after (spell (ls ++ x :: (U ++ X))) = .code := by
    have hends : Mode.code.Reads t ((ls ++ x :: (U ++ zs)) ++ z :: rs) := by
      simpa [hzs] using hreads
    simpa [hzs] using hends.place_of_ends hz
  rw [hlast, hfirst] at hreads hplace ⊢
  exact hreads.closing_forward hx hplace hy hu

/-- The opening bracket goes back over the expression and the spaces in front of it. -/
theorem Reach.opening_backward {kept : List Placed → Prop} (h : Reach kept W U X) {t : Text}
    {u : Lexeme} {us : List Lexeme} (hreads : Mode.code.Reads t (ls ++ ((X ++ U) ++ x :: y :: rs)))
    (hx : x.1 = .opening) (hmark : ∀ z ∈ ls, z.1 ≠ .mark) (hlast : X ++ U = us ++ [u])
    (hu : u.1.isSpace = true) (hy : y.1.isSpace = false) :
    Mode.code.Reads t (ls ++ x :: ((X ++ U) ++ y :: rs)) := by
  obtain ⟨z, zs, hzs, hz⟩ := h.starts
  have hplace : Place.code.after (spell ls) = .code := by
    have hstarts : Mode.code.Reads t (ls ++ z :: (zs ++ U ++ x :: y :: rs)) := by
      simpa [hzs] using hreads
    exact hstarts.place_of_starts hz
  rw [hlast] at hreads ⊢
  exact hreads.opening_backward hx hplace hmark hu hy

/-- What a caret stands on, when the tokens before it are as long as before. -/
theorem cursor_eq_of_parts {d' : Document} {c : Cursor} {ls' : List Lexeme} {y : Lexeme}
    (hs : d.Standing) (hcaret : d'.caret = d.caret) (hc : d.cursor.Parts d.buffer ls (x :: ms))
    (hc' : c.Parts d'.buffer ls' (y :: rs))
    (hlen : (spell ls').length = (spell ls).length) (hle : x.2.length ≤ y.2.length) :
    d'.cursor = c := by
  have hlow : d.cursor.start ≤ d.caret := d.buffer.start_cursorAt_le d.caret
  have hhigh : d.caret < d.cursor.start + d.cursor.raw.length :=
    Buffer.lt_cursorAt hs.fits.2
  rw [hc.start] at hlow hhigh
  rw [hc.here.2] at hhigh
  rw [← hcaret] at hlow hhigh
  exact hc'.cursorAt (by omega) (by omega)

theorem plain_of_perm {b : Buffer}
    (h : (b.placed.map Placed.lexeme).Perm (d.buffer.placed.map Placed.lexeme))
    (hplain : ∀ q ∈ d.buffer.placed, q.kind ≠ .mark ∧ q.kind ≠ .junk ∧ q.kind ≠ .comment) :
    ∀ q ∈ b.placed, q.kind ≠ .mark ∧ q.kind ≠ .junk ∧ q.kind ≠ .comment := by
  intro q hq
  obtain ⟨r, hr, heq⟩ := List.mem_map.1 (h.mem_iff.1 (List.mem_map_of_mem (f := Placed.lexeme) hq))
  have hkind : r.kind = q.kind := congrArg Prod.fst heq
  exact hkind ▸ hplain r hr

theorem text_of_spell {d' : Document} (hd : d.text ++ ['\n'] = spell ls)
    (hd' : d'.text ++ ['\n'] = spell ls) : d'.text = d.text :=
  List.append_cancel_right (hd'.trans hd.symm)

/-! ## Forwards -/

/-- Where the last expression of a list, behind spaces, is barfed. -/
theorem spell_barfForward (hp : Phase .code d.buffer.placed)
    (hplain : ∀ q ∈ d.buffer.placed, q.kind ≠ .mark ∧ q.kind ≠ .junk ∧ q.kind ≠ .comment)
    (h : Reach (Falls Kind.ahead 0) W U X)
    (hc : d.cursor.Parts d.buffer ls (W ++ (U ++ (X ++ x :: rs)))) (hx : x.1 = .closing)
    (hlast : ls ++ W = ms ++ [y]) (hy : y.1.isSpace = false) :
    d.barfForward.text ++ ['\n'] = spell ((ls ++ W) ++ x :: (U ++ (X ++ rs))) := by
  obtain ⟨ws, hws, rfl⟩ := h.inside
  obtain ⟨xs, hxs, rfl⟩ := h.expression
  have hplaced := hc.placed
  obtain ⟨g, hg⟩ := exists_parts d.buffer (ls ++ ws.map Placed.lexeme)
    (U ++ (xs.map Placed.lexeme ++ x :: rs)) (by simp [hplaced]) (by simp)
  obtain ⟨f, hf⟩ := exists_parts d.buffer (ls ++ ws.map Placed.lexeme ++ U)
    (xs.map Placed.lexeme ++ x :: rs) (by simp [hplaced]) (by simp)
  obtain ⟨e, he⟩ := exists_parts d.buffer
    (ls ++ ws.map Placed.lexeme ++ U ++ xs.map Placed.lexeme) (x :: rs)
    (by simp [hplaced]) (by simp)
  have hek : e.kind = .closing := he.here.1.trans hx
  obtain ⟨vs, hwspan, hvs⟩ := hc.span hg
  obtain ⟨us, huspan, rfl⟩ := hg.span hf
  obtain ⟨zs, hxspan, hzs⟩ := hf.span he
  have hskip : ∀ q ∈ us, q.kind.isSkipped false = true := fun q hq =>
    h.space q.lexeme (List.mem_map_of_mem hq)
  have hexpr : Expression zs := hxs.of_map_kind (map_kind_of_lexeme hzs.symm)
  have hlist : d.cursor.forwardList? = some e := by
    have hfalls : Falls Kind.ahead 0 vs := hws.of_map_kind (map_kind_of_lexeme hvs.symm)
    exact hc.mem.forwardList?_of_falls hp (plain_of_bare hplain)
      (hwspan.trans (huspan.trans hxspan))
      (hfalls.trans (hexpr.level.falls.skip fun q hq => ahead_of_skipped (hskip q hq))) hek
  have hspace : f.backwardSpace true = g := by
    refine huspan.backwardSpace (fun q hq => ?_) (fun q hq => ?_) ?_
    · have := hskip q hq
      revert this
      cases q.kind <;> decide
    · exact hf.mem.no_comment_behind hplain q hq
    · have hcomment : y.1 ≠ .comment := by
        obtain ⟨q, hq, rfl⟩ := List.mem_map.1 (show y ∈ d.buffer.placed.map Placed.lexeme by
          rw [hg.placed, hlast]; simp)
        exact (hplain q hq).2.2
      rw [Parts.prevKind (hlast ▸ hg)]
      revert hy hcomment
      cases y.1 <;> decide
  simp only [barfForward, hlist, backwardSexp_expression hexpr hxspan, ↓reduceIte, hspace]
  rw [← List.append_assoc (us.map Placed.lexeme)]
  exact spell_carryBackward hp (by simpa using hg) (by simpa using he) (Or.inr hek)

/-- The tokens that a slurp finds: from the caret to the end of its list, then spaces, and then an
expression. -/
theorem exists_slurpForward (hp : Phase .code d.buffer.placed)
    (hplain : ∀ q ∈ d.buffer.placed, q.kind ≠ .mark ∧ q.kind ≠ .junk ∧ q.kind ≠ .comment)
    (he : d.cursor.forwardList? = some e) (hne : d.slurpForward.text ≠ d.text)
    (hc : d.cursor.Parts d.buffer ls ms) :
    ∃ W U X x rs, Reach (Falls Kind.ahead 0) W U X ∧ ms = W ++ x :: (U ++ (X ++ rs)) ∧
      e.Parts d.buffer (ls ++ W) (x :: (U ++ (X ++ rs))) ∧
      d.slurpForward.text ++ ['\n'] = spell ((ls ++ W) ++ ((U ++ X) ++ x :: rs)) := by
  have hein := hc.mem.forwardList? he
  obtain ⟨heq, hek⟩ := Cursor.forwardList?_eq_some he
  have hline : e.kind ≠ .lineEnd := by simp [hek]
  obtain ⟨_, -, -, hfence⟩ := hein.closing hp hek
  have hnext := (hein.next_of_kind hline).2
  have hslurp : d.slurpForward = if (e.next.forwardSexp false).found = true then
      d.carryForward e.raw e.start ((e.next.forwardSexp false).cursor.backwardSpace false).start
      else d := by
    simp only [slurpForward, he]
  have hf : (e.next.forwardSexp false).found = true := by
    refine Decidable.byContradiction fun hf => hne ?_
    rw [hslurp, if_neg hf]
  rw [if_pos hf, hein.next.backwardSpace_forwardSexp hp hf] at hslurp
  obtain ⟨ws, hspan, hws⟩ : ∃ ws, Span d.cursor e ws ∧ Falls Kind.ahead 0 ws := by
    rcases hc.mem.forwardSexps_counts hp (plain_of_bare hplain) with ⟨-, hcounts⟩ | ⟨hk, -⟩
    · exact heq ▸ hcounts
    · exact absurd hek (heq ▸ hk)
  obtain ⟨f, us, xs, hfin, hfspan, hus, hgspan, hxs⟩ :=
    hein.next.forwardSexp_blanks hp hplain (hnext ▸ hfence.stop) hf
  obtain ⟨hparts, rfl⟩ := hc.of_span hspan hein
  obtain ⟨hnparts, -⟩ := hparts.next hline
  obtain ⟨hfparts, hbehind⟩ := hnparts.of_span hfspan hfin
  obtain ⟨hgparts, hahead⟩ := hfparts.of_span hgspan (hein.next.forwardSexp false)
  rw [hahead] at hbehind
  rw [List.map_cons, hbehind] at hparts
  refine ⟨_, _, _, e.here.lexeme, _, ⟨⟨ws, hws, rfl⟩, ?_, xs, hxs, rfl⟩, ?_, hparts, ?_⟩
  · intro x hx
    obtain ⟨q, hq, rfl⟩ := List.mem_map.1 hx
    exact hus q hq
  · rw [List.map_cons, hbehind]
  · rw [hslurp]
    rw [← List.append_assoc (us.map Placed.lexeme)] at hparts
    exact spell_carryForward hp hparts (by simpa using hgparts) (Or.inr hek)

/-- A list that has taken in an expression behind spaces gives it back. -/
theorem slurpForward_restored (hd : d.Reached)
    (hplain : ∀ q ∈ d.buffer.placed, q.kind ≠ .mark ∧ q.kind ≠ .junk ∧ q.kind ≠ .comment)
    (he : d.cursor.forwardList? = some e) (hne : d.slurpForward.text ≠ d.text)
    (hleft : e.prevKind.isSpace = false) (hright : e.next.kind.isSpace = true) :
    d.slurpForward.barfForward.text = d.text := by
  have hs := hd.standing
  have hp : Phase .code d.buffer.placed := Buffer.phase_placed hs.settled hs.unbroken
  obtain ⟨ls, ms, hc⟩ : ∃ ls ms, d.cursor.Parts d.buffer ls ms :=
    ⟨_, _, (d.buffer.in_cursorAt d.caret).parts⟩
  obtain ⟨W, U, X, x, rs, hreach, rfl, hparts, htext⟩ := exists_slurpForward hp hplain he hne hc
  have hx : x.1 = .closing := hparts.here.1.symm.trans (Cursor.forwardList?_eq_some he).2
  obtain ⟨ts, y, hlast, hy⟩ := hparts.exists_last (by intro hk; simp [hk, Kind.isSpace] at hleft)
  obtain ⟨u, us, hu⟩ : ∃ u us, U ++ X = u :: us := by
    obtain ⟨zs, z, hzs, -⟩ := hreach.ends
    exact List.exists_cons_of_ne_nil (by rw [hzs]; simp)
  have hu' : u.1.isSpace = true := by
    have hnext := (hparts.next (by rw [hparts.here.1, hx]; simp)).1
    rw [← List.append_assoc, hu] at hnext
    rw [← hnext.here.1]
    exact hright
  have hreads := Buffer.reads_placed hs.settled hs.unbroken
  rw [hparts.placed, ← List.append_assoc U] at hreads
  have hnew := hreach.closing_forward hreads hx hlast (hy ▸ hleft) hu hu'
  have hs' : d.slurpForward.Standing := (Reached.apply .slurpForward hd).standing
  have hp' : Phase .code d.slurpForward.buffer.placed :=
    Buffer.phase_placed hs'.settled hs'.unbroken
  have hplaced := Buffer.lexeme_placed hs'.settled hs'.unbroken hnew htext
  have hplain' := plain_of_perm (b := d.slurpForward.buffer) (by
    rw [hplaced, hparts.placed, ← List.append_assoc U]
    exact List.perm_middle.append_left _) hplain
  have hselection : d.slurpForward.selection = d.selection := (movesBracket_slurpForward hp).1
  obtain ⟨c, hc'⟩ := exists_parts d.slurpForward.buffer ls (W ++ (U ++ (X ++ x :: rs)))
    (by simp [hplaced]) (by simp)
  have hcursor : d.slurpForward.cursor = c := by
    have hcaret := congrArg Selection.caret hselection
    cases W with
    | nil =>
      rw [List.nil_append] at hc hc'
      rw [← List.append_assoc U, hu] at hc'
      have hone : ∀ o ∈ Bracket.closers, o.length = 1 := by decide
      have hraw := (hreads.suits (Mode.agrees_place .code _)).2.closing hx
      have hpos := List.length_pos_iff.2 (hnew.raw_ne_nil u (by rw [hu]; simp))
      refine cursor_eq_of_parts hs hcaret hc hc' rfl ?_
      rw [hone _ hraw]
      exact hpos
    | cons w W => exact cursor_eq_of_parts hs hcaret hc hc' rfl (Nat.le_refl _)
  refine text_of_spell ?_
    (spell_barfForward hp' hplain' hreach (hcursor ▸ hc') hx hlast (hy ▸ hleft))
  rw [text, ← d.buffer.rawText_placed, ← spell_map_lexeme, hparts.placed]

/-! ## Backwards -/

/-- Where the first expression of a list, in front of spaces, is barfed. -/
theorem spell_barfBackward (hp : Phase .code d.buffer.placed)
    (hplain : ∀ q ∈ d.buffer.placed, q.kind ≠ .mark ∧ q.kind ≠ .junk ∧ q.kind ≠ .comment)
    (h : Reach (fun ws => Falls Kind.behind 0 ws.reverse) W U X)
    (hc : d.cursor.Parts d.buffer (ls ++ x :: (X ++ (U ++ W))) rs) (hx : x.1 = .opening)
    (hfirst : W ++ rs = y :: ms) (hy : y.1.isSpace = false) :
    d.barfBackward.text ++ ['\n'] = spell (ls ++ ((X ++ U) ++ x :: (W ++ rs))) := by
  obtain ⟨ws, hws, rfl⟩ := h.inside
  obtain ⟨xs, hxs, rfl⟩ := h.expression
  have hplaced := hc.placed
  have hne : ws.map Placed.lexeme ++ rs ≠ [] := by rw [hfirst]; simp
  obtain ⟨o, ho⟩ := exists_parts d.buffer ls
    (x :: ((xs.map Placed.lexeme ++ U) ++ (ws.map Placed.lexeme ++ rs)))
    (by simp [hplaced]) (by simp)
  obtain ⟨f, hf⟩ := exists_parts d.buffer (ls ++ [x] ++ xs.map Placed.lexeme)
    (U ++ (ws.map Placed.lexeme ++ rs)) (by simp [hplaced]) (by simp_all)
  obtain ⟨g, hg⟩ := exists_parts d.buffer (ls ++ [x] ++ xs.map Placed.lexeme ++ U)
    (ws.map Placed.lexeme ++ rs) (by simp [hplaced]) hne
  have hok : o.kind = .opening := ho.here.1.trans hx
  obtain ⟨hospan, -⟩ := ho.mem.next_of_kind (show o.kind ≠ .lineEnd by rw [hok]; simp)
  have hinside := (ho.next (by rw [hok]; simp)).1
  rw [List.append_assoc (xs.map _)] at hinside
  obtain ⟨zs, hxspan, hzs⟩ := hinside.span hf
  obtain ⟨us, huspan, rfl⟩ := hf.span hg
  obtain ⟨vs, hwspan, hvs⟩ := hg.span (by simpa using hc)
  have hskip : ∀ q ∈ us, q.kind.isSkipped false = true := fun q hq =>
    h.space q.lexeme (List.mem_map_of_mem hq)
  have hexpr : Expression zs := hxs.of_map_kind (map_kind_of_lexeme hzs.symm)
  have hlist : d.cursor.backwardList? = some o.next := by
    have hfalls : Falls Kind.behind 0 vs.reverse := by
      refine hws.of_map_kind ?_
      rw [List.map_reverse, List.map_reverse, map_kind_of_lexeme hvs]
    have hback : Falls Kind.behind 0 (us.reverse ++ zs.reverse) :=
      (hexpr.level.reverse fun _ => rfl).falls.skip fun q hq =>
        behind_of_skipped (hskip q (List.mem_reverse.1 hq))
    refine hc.mem.backwardList?_of_falls hp (plain_of_bare hplain)
      (hxspan.trans (huspan.trans hwspan)) ?_
      (hinside.prevKind.trans hx)
    rw [List.reverse_append, List.reverse_append, List.append_assoc]
    exact hfalls.trans hback
  have hsexp := forwardSexp_of_expression hexpr hxspan (hinside.mem.no_comment_ahead hplain)
  have hspace : f.forwardSpace false = g := by
    refine huspan.forwardSpace hskip ?_
    have hkind : g.kind = y.1 := by
      rw [hfirst] at hg
      exact hg.here.1
    rw [hkind]
    revert hy
    cases y.1 <;> decide
  simp only [barfBackward, hlist, hsexp, ↓reduceIte, hspace, hospan.next.2]
  exact spell_carryForward hp ho (by simpa using hg) (Or.inl hok)

/-- The tokens that a slurp finds on the way back. -/
theorem exists_slurpBackward (hp : Phase .code d.buffer.placed)
    (hplain : ∀ q ∈ d.buffer.placed, q.kind ≠ .mark ∧ q.kind ≠ .junk ∧ q.kind ≠ .comment)
    (hi : d.cursor.backwardList? = some e) (hne : d.slurpBackward.text ≠ d.text)
    (hc : d.cursor.Parts d.buffer ms rs) :
    ∃ W U X x ls, Reach (fun ws => Falls Kind.behind 0 ws.reverse) W U X ∧
      ms = ls ++ (X ++ U) ++ x :: W ∧
      e.prev.Parts d.buffer (ls ++ (X ++ U)) (x :: (W ++ rs)) ∧ e.prev.next = e ∧
      x.1 = .opening ∧
      d.slurpBackward.text ++ ['\n'] = spell (ls ++ x :: ((X ++ U) ++ (W ++ rs))) := by
  obtain ⟨heq, hek⟩ := Cursor.backwardList?_eq_some hi
  obtain ⟨hoin, hok⟩ := prev_of_backwardList? hc.mem hi
  have hline : e.prev.kind ≠ .lineEnd := by simp [hok]
  have hnext : e.prev.next = e := next_prev (by simp [hek])
  obtain ⟨_, -, -, hfence⟩ := hoin.opening hp hok
  have hslurp : d.slurpBackward = if (e.prev.backwardSexp false).found = true then
      d.carryBackward e.prev.raw e.prev.start
        ((e.prev.backwardSexp false).cursor.forwardSpace false).start else d := by
    simp only [slurpBackward, hi]
  have hf : (e.prev.backwardSexp false).found = true := by
    refine Decidable.byContradiction fun hf => hne ?_
    rw [hslurp, if_neg hf]
  rw [if_pos hf, Cursor.forwardSpace_of_not_skipped (Cursor.backwardSexp_found_not_skipped hf)]
    at hslurp
  obtain ⟨ws, hspan, hws⟩ : ∃ ws, Span e d.cursor ws ∧ Falls Kind.behind 0 ws.reverse := by
    rcases hc.mem.backwardSexps_counts hp (plain_of_bare hplain) with ⟨-, hcounts⟩ | ⟨hk, -⟩
    · exact heq ▸ hcounts
    · exact absurd hek (heq ▸ hk)
  obtain ⟨f, us, xs, hfin, hospan, hus, hfspan, hxs⟩ :=
    hoin.backwardSexp_blanks hp hplain hfence.start hf
  have hrparts := (hoin.backwardSexp false).parts
  obtain ⟨hfparts, hahead⟩ := hrparts.of_span hfspan hfin
  obtain ⟨hoparts, hbehind⟩ := hfparts.of_span hospan hoin
  obtain ⟨heparts, -⟩ := hoparts.next hline
  rw [hnext] at heparts
  obtain ⟨hcparts, hinside⟩ := heparts.of_span hspan hc.mem
  have hrs := hcparts.ahead.symm.trans hc.ahead
  rw [hrs] at hinside
  rw [List.map_cons, hinside, List.append_assoc] at hoparts
  refine ⟨_, _, _, e.prev.here.lexeme, _, ⟨⟨ws, hws, rfl⟩, ?_, xs, hxs, rfl⟩, ?_, hoparts, hnext,
    hok, ?_⟩
  · intro x hx
    obtain ⟨q, hq, rfl⟩ := List.mem_map.1 hx
    exact hus q hq
  · rw [← hc.behind, hcparts.behind]
    simp
  · rw [hslurp]
    refine spell_carryBackward hp ?_ hoparts (Or.inl hok)
    rwa [hahead, hbehind, List.map_cons, hinside, ← List.append_assoc] at hrparts

/-- A list that has taken in an expression in front of spaces gives it back. -/
theorem slurpBackward_restored (hd : d.Reached)
    (hplain : ∀ q ∈ d.buffer.placed, q.kind ≠ .mark ∧ q.kind ≠ .junk ∧ q.kind ≠ .comment)
    (hi : d.cursor.backwardList? = some e) (hne : d.slurpBackward.text ≠ d.text)
    (hright : e.kind.isSpace = false) (hleft : e.prev.prevKind.isSpace = true) :
    d.slurpBackward.barfBackward.text = d.text := by
  have hs := hd.standing
  have hp : Phase .code d.buffer.placed := Buffer.phase_placed hs.settled hs.unbroken
  obtain ⟨ms, rs, hc⟩ : ∃ ms rs, d.cursor.Parts d.buffer ms rs :=
    ⟨_, _, (d.buffer.in_cursorAt d.caret).parts⟩
  obtain ⟨y, rs, rfl⟩ := List.exists_cons_of_ne_nil (show rs ≠ [] by rw [← hc.ahead]; simp)
  obtain ⟨W, U, X, x, ls, hreach, rfl, hparts, hnext, hx, htext⟩ :=
    exists_slurpBackward hp hplain hi hne hc
  obtain ⟨us, u, hu⟩ : ∃ us u, X ++ U = us ++ [u] := by
    obtain ⟨z, zs, hzs, -⟩ := hreach.starts
    obtain ⟨us, u, hu⟩ := (List.eq_nil_or_concat (X ++ U)).resolve_left (by rw [hzs]; simp)
    exact ⟨us, u, hu.trans List.concat_eq_append⟩
  have hu' : u.1.isSpace = true := by
    rw [hu, ← List.append_assoc] at hparts
    rw [← hparts.prevKind]
    exact hleft
  obtain ⟨v, vs, hv⟩ : ∃ v vs, W ++ y :: rs = v :: vs := List.exists_cons_of_ne_nil (by simp)
  have hv' : v.1.isSpace = false := by
    have heparts := (hparts.next (by rw [hparts.here.1, hx]; simp)).1
    rw [hnext, hv] at heparts
    rw [← heparts.here.1]
    exact hright
  have hreads := Buffer.reads_placed hs.settled hs.unbroken
  rw [hparts.placed, List.append_assoc] at hreads
  have hnew : Mode.code.Reads [] (ls ++ x :: ((X ++ U) ++ (W ++ y :: rs))) := by
    have hmark : ∀ w ∈ ls, w.1 ≠ .mark := by
      intro w hw
      obtain ⟨q, hq, rfl⟩ := List.mem_map.1 (show w ∈ d.buffer.placed.map Placed.lexeme by
        rw [hparts.placed]; simp [hw])
      exact (hplain q hq).1
    rw [hv] at hreads ⊢
    exact hreach.opening_backward hreads hx hmark hu hu' hv'
  have hs' : d.slurpBackward.Standing := (Reached.apply .slurpBackward hd).standing
  have hp' : Phase .code d.slurpBackward.buffer.placed :=
    Buffer.phase_placed hs'.settled hs'.unbroken
  have hplaced := Buffer.lexeme_placed hs'.settled hs'.unbroken hnew htext
  have hplain' := plain_of_perm (b := d.slurpBackward.buffer) (by
    rw [hplaced, hparts.placed, List.append_assoc ls]
    exact List.perm_middle.symm.append_left _) hplain
  have hselection : d.slurpBackward.selection = d.selection := (movesBracket_slurpBackward hp).1
  obtain ⟨c, hc'⟩ := exists_parts d.slurpBackward.buffer
    (ls ++ x :: (X ++ (U ++ W))) (y :: rs) (by simp [hplaced]) (by simp)
  have hcursor : d.slurpBackward.cursor = c := by
    refine cursor_eq_of_parts hs (congrArg Selection.caret hselection) hc hc' ?_ (Nat.le_refl _)
    simp only [spell_append, spell_cons, List.length_append]
    omega
  refine text_of_spell ?_
    (spell_barfBackward hp' hplain' hreach (hcursor ▸ hc') hx hv hv')
  rw [text, ← d.buffer.rawText_placed, ← spell_map_lexeme, hparts.placed, List.append_assoc]

/-! ## Both directions -/

/-- Barfing undoes slurping, in a document without marks, junk and comments. Forwards, this asks that
what stands in front of the closing bracket is no space and what stands behind it is one; on the way
back, the same of what stands behind the opening bracket and in front of it. The caret stays where it
is all along. -/
theorem barf_slurp {d : Document} (hd : d.Reached)
    (hplain : ∀ q ∈ d.buffer.placed, q.kind ≠ .mark ∧ q.kind ≠ .junk ∧ q.kind ≠ .comment) :
    (∀ e, d.cursor.forwardList? = some e → d.slurpForward.text ≠ d.text →
      e.prevKind.isSpace = false → e.next.kind.isSpace = true →
      d.slurpForward.barfForward.text = d.text ∧
        d.slurpForward.barfForward.selection = d.selection) ∧
    ∀ inside, d.cursor.backwardList? = some inside → d.slurpBackward.text ≠ d.text →
      inside.kind.isSpace = false → inside.prev.prevKind.isSpace = true →
      d.slurpBackward.barfBackward.text = d.text ∧
        d.slurpBackward.barfBackward.selection = d.selection := by
  have hphase : ∀ {e : Document}, e.Reached → Phase .code e.buffer.placed := fun he =>
    Buffer.phase_placed he.standing.settled he.standing.unbroken
  constructor
  · intro e he hne hleft hright
    exact ⟨slurpForward_restored hd hplain he hne hleft hright,
      (movesBracket_barfForward (hphase (.apply .slurpForward hd))).1.trans
        (movesBracket_slurpForward (hphase hd)).1⟩
  · intro inside hi hne hright hleft
    exact ⟨slurpBackward_restored hd hplain hi hne hright hleft,
      (movesBracket_barfBackward (hphase (.apply .slurpBackward hd))).1.trans
        (movesBracket_slurpBackward (hphase hd)).1⟩

/-- Around a list between a symbol and a string on two rows. -/
theorem barf_slurp_string :
    let d := (Command.setCaret 3).apply
      (.ofText ['x', '\n', '(', 'a', ')', ' ', '"', 'b', '\n', 'c', '"'])
    d.slurpForward.text = ['x', '\n', '(', 'a', ' ', '"', 'b', '\n', 'c', '"', ')'] ∧
      d.slurpForward.barfForward.text = d.text ∧
      d.slurpBackward.text = ['(', 'x', '\n', 'a', ')', ' ', '"', 'b', '\n', 'c', '"'] ∧
      d.slurpBackward.barfBackward.text = d.text := by
  intro d
  have hd : d.Reached := .apply _ (.fresh (.ofText trivial))
  obtain ⟨hforward, hbackward⟩ := barf_slurp hd (by decide +kernel)
  have he : d.cursor.forwardList? = some (d.buffer.cursorAt 4) := by decide +kernel
  have hi : d.cursor.backwardList? = some (d.buffer.cursorAt 3) := by decide +kernel
  exact ⟨by decide +kernel,
    (hforward _ he (by decide +kernel) (by decide +kernel) (by decide +kernel)).1,
    by decide +kernel,
    (hbackward _ hi (by decide +kernel) (by decide +kernel) (by decide +kernel)).1⟩

end Document
end StructEdit
