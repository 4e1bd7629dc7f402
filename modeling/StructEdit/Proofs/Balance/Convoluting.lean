import StructEdit.Proofs.Balance.Edits
import StructEdit.Document.Raise

/-!
# Convoluting balanced text

Convoluting takes the text around the caret apart at five places, and the lists that the pieces
open and close have to fit each other in the new order.

The inner closing bracket is found from the caret and the outer one from the inner opening
bracket, by two walks. From inside the inner list the first walk either ends before its
partner or comes out right behind it, where the second walk comes by too. So the inner
closing bracket does not lie behind the outer one.
-/
namespace StructEdit

namespace Cursor

variable {b : Buffer} {c d : Cursor}

theorem forwardSexps_of_closing (h : c.kind = .closing) (comments : Bool) :
    c.forwardSexps comments = c := by
  have hstay : c.forwardSpace comments = c :=
    forwardSpace_of_not_skipped (by rw [h]; cases comments <;> rfl)
  have hmove : c.forwardSexp comments = ⟨false, c⟩ := by
    simp only [forwardSexp, hstay, h, ↓reduceIte]
  rw [forwardSexps]
  simp [hmove]

theorem Span.prev {q : Placed} {ts : List Placed} (h : Span c d (ts ++ [q])) :
    Span c d.prev ts ∧ d.prevKind = q.kind := by
  have hbefore : d.before = q :: (c.before.reverse ++ ts).reverse := by
    have := congrArg List.reverse h.behind
    rw [List.reverse_reverse, ← List.append_assoc, List.reverse_append] at this
    exact this
  obtain ⟨before, here, after⟩ := d
  obtain rfl : before = _ := hbefore
  refine ⟨⟨?_, ?_⟩, rfl⟩
  · show (c.before.reverse ++ ts).reverse.reverse = _
    rw [List.reverse_reverse]
  · rw [h.ahead, List.append_assoc]
    rfl

structure Partner (b : Buffer) (o m : Cursor) : Prop where
  into : o.In b
  behind : m.In b
  opening : o.kind = .opening
  closing : m.prevKind = .closing
  le : o.stop ≤ m.prev.start
  inside : nest [] (b.text.fencesBetween o.stop m.prev.start) = some []

theorem In.partner (h : c.In b) (hb : b.Nested) (hk : c.kind = .opening) :
    (c.forwardSexp true).found = true ∧ Partner b c (c.forwardSexp true).cursor := by
  obtain ⟨hfound, us, q, hspan, hq, hnest⟩ := (h.at hb).forwardSexp_opening hk true
  have hm := h.forwardSexp true
  obtain ⟨hprev, hkind⟩ := hspan.prev
  rw [hq] at hkind
  obtain ⟨hpin, -, -, -, -⟩ := hm.behind (by rw [hkind]; simp)
  obtain ⟨x, -, -, hopen⟩ := h.opening hb.phase hk
  obtain ⟨hstep, hnext⟩ := h.next_of_kind (by simp [hk])
  have hle : c.stop ≤ (c.forwardSexp true).cursor.prev.start := by
    rw [h.start_of_span hpin hprev, h.stop_eq (by simp [hk])]
    simp [raw]
  obtain ⟨-, hfences, -⟩ := h.fencesBetween hpin hb.phase hprev
  rw [Text.fencesBetween_append b.text hopen.le hle, fencesOf_cons] at hfences
  obtain ⟨-, hfirst, -⟩ := h.fencesBetween h.next hb.phase hstep
  rw [hnext, fencesOf_cons, fencesOf_nil, List.append_nil] at hfirst
  rw [hfirst] at hfences
  exact ⟨hfound, h, hm, hk, hkind, hle, by rw [List.append_cancel_left hfences]; exact hnest⟩

namespace Partner

variable {o m : Cursor} (h : Partner b o m) (hb : b.Nested)
include h hb

/-- The two brackets are fences of one family, and the same lists are open outside of them. -/
theorem fences : ∃ x, b.text.FenceAt o.start o.stop (.opens x) ∧
    b.text.FenceAt m.prev.start m.start (.closes x) ∧ m.start = m.prev.start + 1 ∧
    m.prev.In b ∧ m.prev.kind = .closing ∧
    nest [x] (b.text.fencesBetween o.stop m.start) = some [] := by
  obtain ⟨hin, hkind, -, hstop, -⟩ := h.behind.behind (by rw [h.closing]; simp)
  have hk := hkind.trans h.closing
  obtain ⟨x, -, -, hopen⟩ := h.into.opening hb.phase h.opening
  obtain ⟨y, -, hraw, hclose⟩ := hin.closing hb.phase hk
  have hlen : m.start = m.prev.start + 1 := by
    have hone : ∀ s ∈ Bracket.closers, s.length = 1 := by decide
    rw [← hstop, hin.stop_eq (by simp [hk]), hone _ hraw]
  rw [hstop] at hclose
  obtain ⟨-, hlists⟩ := hb.balanced.lists_opened h.le h.inside
  rw [hb.balanced.lists_closing hclose, hb.balanced.lists_opening hopen] at hlists
  obtain ⟨rfl, -⟩ := List.cons.inj hlists
  refine ⟨y, hopen, hclose, hlen, hin, hk, ?_⟩
  rw [Text.fencesBetween_append b.text h.le hclose.le, hclose.between]
  exact nest_append_eq_some.2 ⟨[y], nest_of_opens h.inside [y], by simp⟩

/-- Fences from inside the list on that leave open what is open outside do not go past its end. -/
theorem le_of_nest {i : Nat} {n : List Bracket}
    (hn : nest [] (b.text.fencesBetween o.stop i) = some n) : i ≤ m.prev.start := by
  obtain ⟨x, -, hclose, hlen, -, -, hx⟩ := h.fences hb
  rcases Nat.lt_or_ge m.prev.start i with hlt | hge
  · have hle := h.le
    rw [Text.fencesBetween_append b.text (show o.stop ≤ m.start by omega)
      (show m.start ≤ i by omega)] at hn
    obtain ⟨k, hk, -⟩ := nest_append_eq_some.1 hn
    have := (nest_of_closes hx).1 hk
    simp at this
  · exact hge

/-- A motion over an expression from inside the list stays in it or leads right behind it. -/
theorem forwardSexp_le {c : Cursor} (hc : c.In b) (hle : o.stop ≤ c.start)
    (hlt : c.start ≤ m.prev.start) :
    (c.forwardSexp true).cursor.start ≤ m.prev.start ∨ (c.forwardSexp true).cursor = m := by
  obtain ⟨x, -, hclose, hlen, -, -, -⟩ := h.fences hb
  have hdin := hc.forwardSexp true
  obtain ⟨ts, l, hspan, hone, hleaves, -⟩ := (hc.at hb).forwardSexp true
  generalize (c.forwardSexp true).cursor = d at hdin hspan
  rcases Nat.lt_or_ge m.start d.start with hgt | hge
  · have hinside := h.inside
    rw [Text.fencesBetween_append b.text hle hlt] at hinside
    obtain ⟨a, -, ha⟩ := nest_append_eq_some.1 hinside
    have hcut : ∀ {k : Nat} {l' : List Bracket}, m.start ≤ k →
        nest l' (b.text.fencesBetween c.start k) = some [] → ∃ rest, l' = a ++ x :: rest := by
      intro k l' hk hl'
      rw [Text.fencesBetween_append b.text (Nat.le_trans hlt hclose.le) hk,
        Text.fencesBetween_append b.text hlt hclose.le, hclose.between, List.append_assoc] at hl'
      obtain ⟨n, hn, hrest⟩ := nest_append_eq_some.1 hl'
      obtain ⟨rest, rfl, -⟩ := nest_closes_eq_some.1 hrest
      exact ⟨rest, (nest_of_closes ha).1 hn⟩
    obtain ⟨-, hfences, -⟩ := hc.fencesBetween hdin hb.phase hspan
    obtain ⟨rest, hl⟩ := hcut (Nat.le_of_lt hgt) (hfences ▸ hleaves.closes)
    rw [hl, List.length_append, List.length_cons] at hone
    obtain rfl : a = [] := List.length_eq_zero_iff.1 (by omega)
    obtain rfl : rest = [] := List.length_eq_zero_iff.1 (by omega)
    obtain ⟨us, q, rfl, hq, hnest⟩ := hleaves.last hl
    obtain ⟨hprev, hkind⟩ := hspan.prev
    rw [hq] at hkind
    have hpin := (hdin.behind (by rw [hkind]; simp)).1
    have hmono : m.start ≤ d.prev.start := by
      refine h.behind.start_mono hpin ?_
      have hbefore := h.behind.before_length_lt hdin hgt
      cases hd : d.before with
      | nil => simp [hd] at hbefore
      | cons p before =>
        simp only [hd, List.length_cons] at hbefore
        simp only [Cursor.prev, prev?, hd, Option.getD_some]
        omega
    obtain ⟨-, hfences', -⟩ := hc.fencesBetween hpin hb.phase hprev
    obtain ⟨rest, hnil⟩ := hcut hmono (hfences' ▸ hnest)
    simp at hnil
  · rcases Nat.eq_or_lt_of_le hge with heq | hlt'
    · exact Or.inr (hdin.eq_of_start h.behind heq)
    · exact Or.inl (by omega)

theorem forwardSexps_le {c : Cursor} (hc : c.In b) (hle : o.stop ≤ c.start)
    (hlt : c.start ≤ m.prev.start) (hk : (c.forwardSexps true).kind = .closing) :
    (c.forwardSexps true).start ≤ m.prev.start ∨ c.forwardSexps true = m.forwardSexps true := by
  fun_induction Cursor.forwardSexps true c with
  | case1 c _ _ ih =>
    rcases h.forwardSexp_le hb hc hle hlt with hin | hout
    · have hmono := hc.start_mono (hc.forwardSexp true) (before_length_le_forwardSexp true c)
      exact ih (hc.forwardSexp true) (Nat.le_trans hle hmono) hin hk
    · rw [hout]
      exact Or.inr rfl
  | case2 c _ =>
    rcases h.forwardSexp_le hb hc hle hlt with hin | hout
    · exact Or.inl hin
    · rw [hout] at hk ⊢
      exact Or.inr (forwardSexps_of_closing hk true).symm

end Partner
end Cursor

/-- Fences that close lists, one after the other. -/
theorem nest_closes_append {l m : List Bracket} {fs gs : List Fence} (hf : nest l fs = some [])
    (hg : nest m gs = some []) : nest (l ++ m) (fs ++ gs) = some [] :=
  nest_append_eq_some.2 ⟨m, nest_frame hf m, hg⟩

namespace Buffer.Nested

open Document (nesting? Nesting)

variable {b : Buffer} {i : Nat} {n : Nesting}

/-- The opening brackets of the two lists around the caret. -/
theorem nesting_behind (hb : b.Nested) (hi : i ≤ b.maxOffset)
    (hn : nesting? (b.cursorAt i) = some n) :
    n.innerOpener.In b ∧ n.innerOpener.kind = .opening ∧ n.innerOpener.stop ≤ i ∧
      (∃ m, nest [] (b.text.fencesBetween n.innerOpener.stop i) = some m) ∧
      n.outerOpener.start ≤ n.innerOpener.start ∧ b.text.placeAt n.outerOpener.start = .code ∧
      ∃ m, nest [] (b.text.fencesBetween n.outerOpener.start n.innerOpener.start) = some m := by
  obtain ⟨inside, outside, hinside, -, hinner, houtside, hup, -⟩ := Document.nesting?_eq_some hn
  have hin := b.in_cursorAt i
  have hprev := (Cursor.backwardList?_eq_some hinside).2
  obtain ⟨hoin, hkind, -, hstop, -⟩ := (hin.backwardList? hinside).behind (by rw [hprev]; simp)
  rw [← hinner] at hoin hkind hstop
  obtain ⟨hle, hnest⟩ := hb.caret_backwardList? hi hinside
  obtain ⟨hle', m, hm⟩ := hoin.walk_backwardList? hb houtside
  have hout := hoin.backwardList? houtside
  obtain ⟨hup, hupKind⟩ := Cursor.backwardUpList?_eq_some hup
  have hspace := hout.backwardSpace true
  obtain ⟨hle'', hnone⟩ := hout.walk_backwardSpace hb true
  obtain ⟨hpin, hpk, -, hpstop, -⟩ := hspace.behind (by rw [hupKind]; simp)
  rw [← hup] at hpin hpk hpstop
  obtain ⟨y, -, -, hopen⟩ := hpin.opening hb.phase (hpk.trans hupKind)
  rw [hpstop] at hopen
  refine ⟨hoin, hkind.trans hprev, hstop ▸ hle, hstop ▸ hnest, ?_, hopen.start, m ++ [y], ?_⟩
  · exact Nat.le_trans hopen.le (Nat.le_trans hle'' hle')
  · rw [Text.fencesBetween_append b.text hopen.le (Nat.le_trans hle'' hle'),
      Text.fencesBetween_append b.text hle'' hle', hopen.between, hnone, List.nil_append]
    exact nest_of_opens hm [y]

/-- The closing brackets of the two lists around the caret, the inner one first. -/
theorem nesting_ahead (hb : b.Nested) (hi : i ≤ b.maxOffset)
    (hn : nesting? (b.cursorAt i) = some n) :
    n.innerCloser.In b ∧ n.innerCloser.kind = .closing ∧ n.outerCloser.In b ∧
      n.outerCloser.kind = .closing ∧ i ≤ n.innerCloser.start ∧
      (∃ l, nest l (b.text.fencesBetween i n.innerCloser.start) = some []) ∧
      n.innerCloser.stop ≤ n.outerCloser.stop ∧
      ∃ l, nest l (b.text.fencesBetween n.innerCloser.stop n.outerCloser.stop) = some [] := by
  obtain ⟨inside, outside, hinside, hcloser, hinner, -, -, houter⟩ := Document.nesting?_eq_some hn
  obtain ⟨hoin, hok, -⟩ := hb.nesting_behind hi hn
  have hin := b.in_cursorAt i
  have hicin := hin.forwardList? hcloser
  have hocin := hoin.forwardList? houter
  obtain ⟨hic, hick⟩ := Cursor.forwardList?_eq_some hcloser
  obtain ⟨hoc, hock⟩ := Cursor.forwardList?_eq_some houter
  obtain ⟨hle, hnest⟩ := hb.caret_forwardList? hi hcloser
  refine ⟨hicin, hick, hocin, hock, hle, hnest, ?_⟩
  obtain ⟨hfound, hpartner⟩ := hoin.partner hb hok
  obtain ⟨x, -, hclose, hlen, hpin, hpk, hwhole⟩ := hpartner.fences hb
  generalize hm : (n.innerOpener.forwardSexp true).cursor = m at *
  have hocm : n.outerCloser = m.forwardSexps true := by
    rw [hoc, Cursor.forwardSexps]
    simp [hfound, hm]
  have hprev := (Cursor.backwardList?_eq_some hinside).2
  obtain ⟨-, -, -, hstop, -⟩ := (hin.backwardList? hinside).behind (by rw [hprev]; simp)
  rw [← hinner] at hstop
  obtain ⟨hback, k, hk⟩ := hin.walk_backwardList? hb hinside
  rw [← hstop] at hback hk
  have hcaret := hpartner.le_of_nest hb hk
  rcases hpartner.forwardSexps_le hb hin hback hcaret (hic ▸ hick) with hbefore | hsame
  · rw [← hic] at hbefore
    obtain ⟨y, -, hraw, hfence⟩ := hicin.closing hb.phase hick
    have hicstop : n.innerCloser.stop = n.innerCloser.start + 1 := by
      have hone : ∀ s ∈ Bracket.closers, s.length = 1 := by decide
      rw [hicin.stop_eq (by simp [hick]), hone _ hraw]
    have hstart := b.start_cursorAt_le i
    have hlist : m.forwardList? = some n.outerCloser := by
      simp [Cursor.forwardList?, ← hocm, hock]
    obtain ⟨hmo, l, hl⟩ := hpartner.behind.walk_forwardList? hb hlist
    obtain ⟨z, -, -, hlast⟩ := hocin.closing hb.phase hock
    rw [Text.fencesBetween_append b.text (show n.innerOpener.stop ≤ n.innerCloser.stop by omega)
      (show n.innerCloser.stop ≤ m.start by omega)] at hwhole
    obtain ⟨l', -, hl'⟩ := nest_append_eq_some.1 hwhole
    have hol := hlast.le
    refine ⟨by omega, l' ++ (l ++ [z]), ?_⟩
    rw [Text.fencesBetween_append b.text (show n.innerCloser.stop ≤ m.start by omega)
        (show m.start ≤ n.outerCloser.stop by omega),
      Text.fencesBetween_append b.text hmo hlast.le, hlast.between]
    exact nest_closes_append hl' (nest_closes_append hl (by simp))
  · have heq : n.innerCloser = n.outerCloser := hic.trans (hsame.trans hocm.symm)
    rw [heq]
    refine ⟨Nat.le_refl _, [], ?_⟩
    rw [Text.fencesBetween, List.drop_take_self]
    rfl

end Buffer.Nested

namespace Buffer

/-- The lists that are open behind the head of the outer list, in its new place. -/
def headLists (b : Buffer) (i : Nat) (n : Document.Nesting) : List Bracket :=
  b.text.opened n.innerOpener.stop i ++
    ((Bracket.ofText? n.innerOpener.raw).toList ++ b.text.listsAt n.outerOpener.start)

/-- What comes behind the head, up to the place where the inner closing bracket goes. -/
def convolutedTail (b : Buffer) (i : Nat) (n : Document.Nesting) : Text :=
  b.slice n.outerOpener.start n.innerOpener.start ++
    (b.slice i n.innerCloser.start ++
      (b.slice n.innerCloser.stop n.outerCloser.stop ++
        (n.innerCloser.raw ++ b.text.drop n.outerCloser.stop)))

/-- In code, the lists opened by the pieces in their new order are those that they close. Elsewhere
what follows the head can be read from the place of the caret on. -/
def KeepsConvolute (b : Buffer) (i : Nat) : Prop :=
  match Document.nesting? (b.cursorAt i) with
  | none => True
  | some n =>
    if b.text.placeAt i = .code then
      b.text.opened n.outerOpener.start n.innerOpener.start ++ b.headLists i n =
        b.text.closed i n.innerCloser.start ++
          (b.text.closed n.innerCloser.stop n.outerCloser.stop ++
            ((Bracket.ofText? n.innerCloser.raw).toList ++ b.text.listsAt n.outerCloser.stop))
    else Text.Closes (b.text.placeAt i) (b.headLists i n) (b.convolutedTail i n)

variable {b : Buffer} {i : Nat} {n : Document.Nesting}

theorem Nested.convolute_iff (hb : b.Nested) (hi : i ≤ b.maxOffset)
    (hn : Document.nesting? (b.cursorAt i) = some n) :
    Text.Balanced (b.text.take n.outerOpener.start ++
        (Text.normalizeBreaks (Text.normalizeBreaks
          (n.innerOpener.raw ++ b.slice n.innerOpener.stop i)) ++ b.convolutedTail i n)) ↔
      if b.text.placeAt i = .code then
        b.text.opened n.outerOpener.start n.innerOpener.start ++ b.headLists i n =
          b.text.closed i n.innerCloser.start ++
            (b.text.closed n.innerCloser.stop n.outerCloser.stop ++
              ((Bracket.ofText? n.innerCloser.raw).toList ++ b.text.listsAt n.outerCloser.stop))
      else Text.Closes (b.text.placeAt i) (b.headLists i n) (b.convolutedTail i n) := by
  have hbal := hb.balanced
  obtain ⟨hoin, hok, hoi, ⟨m, hm⟩, hoo, houter, k, hk⟩ := hb.nesting_behind hi hn
  obtain ⟨hicin, hick, hocin, hock, hic, ⟨l, hl⟩, hco, l', hl'⟩ := hb.nesting_ahead hi hn
  obtain ⟨x, hx, hxraw, hopen⟩ := hoin.opening hb.phase hok
  obtain ⟨y, hy, hyraw, hclose⟩ := hicin.closing hb.phase hick
  obtain ⟨z, -, -, hlast⟩ := hocin.closing hb.phase hock
  have hhead : Piece (b.text.placeAt n.outerOpener.start) (Text.normalizeBreaks
      (Text.normalizeBreaks (n.innerOpener.raw ++ b.slice n.innerOpener.stop i)))
      (.opens x :: b.text.fencesBetween n.innerOpener.stop i) (b.text.placeAt i) := by
    have hbetween := Text.piece_between b.text hoi
    rw [hopen.stop] at hbetween
    rw [b.slice_of_le hoi, houter]
    exact ((piece_opener hxraw hx).append hbetween).normalizeBreaks.normalizeBreaks
  have hnest : nest (b.text.listsAt n.outerOpener.start)
      (.opens x :: b.text.fencesBetween n.innerOpener.stop i) = some (b.headLists i n) := by
    rw [nest_opens, nest_of_opens hm, headLists, (hbal.lists_opened hoi hm).1, hx]
    rfl
  have hwhole : Text.Balanced (b.text.take n.outerOpener.start ++
      (Text.normalizeBreaks (Text.normalizeBreaks
        (n.innerOpener.raw ++ b.slice n.innerOpener.stop i)) ++ b.convolutedTail i n)) ↔
      Text.Closes (b.text.placeAt i) (b.headLists i n) (b.convolutedTail i n) := by
    rw [hbal.take_append_iff, Text.closes_append hhead, hnest]
    simp
  rw [hwhole]
  split
  · rename_i hcode
    have h₁ := Text.piece_between b.text hoo
    have h₂ := Text.piece_between b.text hic
    have h₃ := Text.piece_between b.text hco
    rw [houter, hopen.start] at h₁
    rw [hcode, hclose.start] at h₂
    rw [hclose.stop, hlast.stop] at h₃
    rw [convolutedTail, b.slice_of_le hoo, b.slice_of_le hic, b.slice_of_le hco, hcode,
      Text.closes_append h₁, nest_of_opens hk, (hbal.lists_opened hoo hk).1,
      (hbal.lists_closed hic hl).1, (hbal.lists_closed hco hl').1, hy]
    simp only [Option.some.injEq, exists_eq_left', Text.closes_append h₂, Text.closes_append h₃,
      Text.closes_append (piece_closer hyraw hy), nest_of_closes hl, nest_of_closes hl',
      hbal.closes_drop_iff (Or.inl hlast.stop.symm), nest_closes_eq_some]
    constructor
    · rintro ⟨p, hp, q, rfl, r, ⟨rest, rfl, hrest⟩, rfl⟩
      rw [hp, Option.some.inj hrest]
      rfl
    · intro heq
      exact ⟨_, heq, _, rfl, _, ⟨_, rfl, rfl⟩, rfl⟩
  · exact Iff.rfl

/-- The four edits, made from the back to the front, at places that come in this order. -/
theorem text_convolute {c : Text} (hc : '\n' ∉ c) (h₁ : n.outerOpener.start ≤ n.innerOpener.start)
    (h₂ : n.innerOpener.start ≤ i) (h₃ : i ≤ n.innerCloser.start)
    (h₄ : n.innerCloser.start ≤ n.innerCloser.stop) (h₅ : n.innerCloser.stop ≤ n.outerCloser.stop)
    (hmax : n.outerCloser.stop ≤ b.maxOffset) (head : Text) :
    ((((b.replace n.outerCloser.stop n.outerCloser.stop c).replace
      n.innerCloser.start n.innerCloser.stop []).replace n.innerOpener.start i []).replace
      n.outerOpener.start n.outerOpener.start head).text =
      b.text.take n.outerOpener.start ++ (Text.normalizeBreaks (Text.normalizeBreaks head) ++
        (b.slice n.outerOpener.start n.innerOpener.start ++ (b.slice i n.innerCloser.start ++
          (b.slice n.innerCloser.stop n.outerCloser.stop ++
            (c ++ b.text.drop n.outerCloser.stop))))) := by
  rw [← b.length_text] at hmax
  have e₁ := text_replace_of_le (b := b) (Nat.le_refl n.outerCloser.stop) hc
  rw [List.append_assoc] at e₁
  have e₂ := text_replace_of_take e₁ h₄ h₅ hmax []
  have e₃ := text_replace_of_take e₂ h₂ h₃ (by omega) []
  have e₄ := text_replace_of_take e₃ (Nat.le_refl n.outerOpener.start) h₁ (by omega) head
  rw [e₄, b.slice_of_le h₁, b.slice_of_le h₃, b.slice_of_le h₅]
  rfl

theorem Nested.text_convolute (hb : b.Nested) (hi : i ≤ b.maxOffset)
    (hn : Document.nesting? (b.cursorAt i) = some n) (head : Text) :
    ((((b.replace n.outerCloser.stop n.outerCloser.stop n.innerCloser.raw).replace
      n.innerCloser.start n.innerCloser.stop []).replace n.innerOpener.start i []).replace
      n.outerOpener.start n.outerOpener.start head).text =
      b.text.take n.outerOpener.start ++
        (Text.normalizeBreaks (Text.normalizeBreaks head) ++ b.convolutedTail i n) := by
  obtain ⟨hoin, hok, hoi, -, hoo, -⟩ := hb.nesting_behind hi hn
  obtain ⟨hicin, hick, hocin, -, hic, -, hco, -⟩ := hb.nesting_ahead hi hn
  obtain ⟨x, -, -, hopen⟩ := hoin.opening hb.phase hok
  obtain ⟨y, -, hraw, hclose⟩ := hicin.closing hb.phase hick
  exact Buffer.text_convolute (Text.newline_not_mem_delimiter (List.mem_append_right _ hraw)) hoo
    (Nat.le_trans hopen.le hoi) hic hclose.le hco hocin.stop_le head

end Buffer

namespace Document

variable {d : Document}

theorem balanced_convolute_iff (hb : d.buffer.Nested) (hf : d.Fits)
    (hs : d.selection.isEmpty = true) :
    d.convolute.buffer.text.Balanced ↔ d.buffer.KeepsConvolute d.caret := by
  have hi : d.caret ≤ d.buffer.maxOffset := hf.2
  have hcursor : d.buffer.cursorAt d.caret = d.cursor := rfl
  simp only [convolute, Buffer.KeepsConvolute, hcursor, hs, Bool.true_eq_false, ↓reduceIte]
  cases hn : nesting? d.cursor with
  | none => exact iff_true_intro hb.balanced
  | some n =>
    obtain ⟨hoin, hok, -⟩ := hb.nesting_behind hi hn
    have hnext := (hoin.next_of_kind (by simp [hok])).2
    simp only
    rw [buffer_perform, Buffer.text_flush, buffer_setCaret, buffer_splice, buffer_splice,
      buffer_splice, buffer_splice, buffer_begun, hb.text_convolute hi hn, hnext]
    exact hb.convolute_iff hi hn

end Document
end StructEdit
