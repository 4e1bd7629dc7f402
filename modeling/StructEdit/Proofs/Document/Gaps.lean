import StructEdit.Proofs.Balance.Lists
import StructEdit.Proofs.Cursor.Counting
import StructEdit.Proofs.Document.SingleStep

/-!
# What splitting and joining leave out

Splitting a list and joining two expressions put a new text in the place of the blanks around the
caret. The blanks run from where the motion back ends to where the motion forward ends, and both
motions pass comments by as well. So what is lost are the comments between the two places, and
nothing else that is not blank: everything in front of the one place and behind the other stays, but
for the delimiters that a join takes off on purpose.

A comment is told from all other text by its semicolon. No other token outside of the strings and
comments has one, so what has been lost shows in the number of semicolons.
-/
namespace StructEdit

/-- The text of the tokens that are neither blanks nor line ends. -/
def codeText (ps : List Placed) : Text := rawText (ps.filter fun q => !q.kind.isSpace)

section Code

variable {p : Place} {q : Placed} {ps qs : List Placed}

@[simp] theorem codeText_append (ps qs : List Placed) :
    codeText (ps ++ qs) = codeText ps ++ codeText qs := by
  simp [codeText]

theorem codeText_cons_of_space (h : q.kind.isSpace = true) (ps : List Placed) :
    codeText (q :: ps) = codeText ps := by
  simp [codeText, h]

theorem codeText_cons (h : q.kind.isSpace = false) (ps : List Placed) :
    codeText (q :: ps) = q.token.raw ++ codeText ps := by
  simp [codeText, h]

theorem codeText_sublist (ps : List Placed) : (codeText ps).Sublist (rawText ps) := by
  induction ps with
  | nil => exact List.nil_sublist _
  | cons q ps ih =>
    cases hq : q.kind.isSpace with
    | true =>
      rw [codeText_cons_of_space hq, rawText_cons]
      exact ih.trans (List.sublist_append_right _ _)
    | false =>
      rw [codeText_cons hq, rawText_cons]
      exact (List.Sublist.refl _).append ih

theorem codeText_eq_nil (h : ∀ q ∈ ps, q.kind.isSpace = true) : codeText ps = [] := by
  rw [codeText, List.filter_eq_nil_iff.2 fun q hq => by simp [h q hq]]
  rfl

/-! ## Semicolons -/

/-- Only a semicolon leads into a comment. -/
theorem Place.after_ne_comment {s : Text} (hs : ';' ∉ s) (hp : p ≠ .comment) :
    p.after s ≠ .comment := by
  induction s generalizing p with
  | nil => exact hp
  | cons c s ih =>
    rw [List.mem_cons, not_or] at hs
    refine ih hs.2 ?_
    cases p with
    | comment => exact absurd rfl hp
    | code =>
      rw [Place.step, if_neg (Ne.symm hs.1)]
      split <;> simp
    | string =>
      rw [Place.step]
      split
      · simp
      · split <;> simp
    | escape => simp [Place.step]

theorem Suits.semicolon_mem {k : Kind} {raw : Text} (h : Suits p k raw) (hk : k = .comment) :
    ';' ∈ raw := by
  refine Decidable.byContradiction fun hnot => ?_
  have hadmits := h.admits
  have hafter := h.after
  subst hk
  refine Place.after_ne_comment hnot ?_ (hafter.trans (by cases p <;> rfl))
  rintro rfl
  simp [Place.admits] at hadmits

/-- Blanks and line ends have no semicolon: behind it the reader would be in a comment. -/
theorem Suits.semicolon_not_mem {k : Kind} {raw : Text} (h : Suits p k raw)
    (hk : k.isSpace = true) : ';' ∉ raw := by
  by_cases hline : k = .lineEnd
  · rw [h.lineEnd hline]
    decide
  · obtain rfl : k = .blank := by
      cases k <;> simp_all [Kind.isSpace]
    intro hm
    obtain ⟨s, t, rfl⟩ := List.append_of_mem hm
    have hcode : p.after s = .code := by
      have hadmits := h.admits
      cases s with
      | nil => cases p <;> simp_all [Place.admits]
      | cons c s =>
        have hholds := h.holds (c :: s).length (by simp) (by simp)
        rw [List.take_left] at hholds
        generalize p.after (c :: s) = r at hholds
        cases r <;> simp_all [Kind.Holds, Kind.isString]
    have hafter : p.after (s ++ [';']) = .comment := by
      rw [Place.after_append, hcode]
      rfl
    cases t with
    | nil =>
      have hadmits := h.admits
      have hpass : p.pass .blank = p := by cases p <;> rfl
      rw [← hpass, ← h.after, hafter] at hadmits
      simp [Place.admits] at hadmits
    | cons c t =>
      have hsplit : s ++ ';' :: c :: t = (s ++ [';']) ++ c :: t := by
        rw [List.append_assoc, List.singleton_append]
      have hholds := h.holds (s ++ [';']).length
        (by rw [hsplit, @List.length_append _ (s ++ [';'])]; exact Nat.lt_add_of_pos_right (Nat.succ_pos _))
        (by rw [List.length_append]; exact Nat.succ_pos _)
      rw [hsplit, List.take_left, hafter] at hholds
      simp [Kind.Holds] at hholds

theorem count_codeText (h : Phase p ps) :
    (codeText ps).count ';' = (rawText ps).count ';' := by
  induction ps generalizing p with
  | nil => rfl
  | cons q ps ih =>
    cases hq : q.kind.isSpace with
    | true =>
      rw [codeText_cons_of_space hq, rawText_cons, List.count_append,
        List.count_eq_zero_of_not_mem (h.1.semicolon_not_mem hq), Nat.zero_add, ih h.2]
    | false => rw [codeText_cons hq, rawText_cons, List.count_append, List.count_append, ih h.2]

theorem count_pos_of_comment (h : Phase p ps) (hq : q ∈ ps) (hk : q.kind = .comment) :
    0 < (codeText ps).count ';' := by
  induction ps generalizing p with
  | nil => simp at hq
  | cons r ps ih =>
    rcases List.mem_cons.1 hq with rfl | hq
    · rw [codeText_cons (by rw [hk]; rfl), List.count_append]
      exact Nat.lt_of_lt_of_le (List.count_pos_iff.2 (h.1.semicolon_mem hk)) (Nat.le_add_right _ _)
    · have hrest := ih h.2 hq
      cases hr : r.kind.isSpace with
      | true => rwa [codeText_cons_of_space hr]
      | false =>
        rw [codeText_cons hr, List.count_append]
        omega

end Code

/-! ## The gap -/

/-- The length of the delimiter that a join takes off a token: all of a bracket, or a quote. -/
def Token.edge (t : Token) : Nat := if t.kind = .opening ∨ t.kind = .closing then t.length else 1

theorem Token.edge_le {t : Token} (h : 0 < t.length) : t.edge ≤ t.length := by
  unfold edge
  split <;> omega

namespace Cursor

variable {b : Buffer} {c e : Cursor} {gap : List Placed}

/-- The tokens that the motion over blanks and comments goes over. -/
def skipped (c : Cursor) : List Placed :=
  (c.here :: c.after).take ((c.forwardSpace true).before.length - c.before.length)

theorem span_skipped (c : Cursor) :
    Span c (c.forwardSpace true) c.skipped ∧ ∀ q ∈ c.skipped, q.kind.isSkipped true = true := by
  obtain ⟨ts, hspan, hskip⟩ := span_forwardSpace true c
  have hts : c.skipped = ts := by
    rw [skipped, hspan.ahead, hspan.before_eq, List.length_append, List.length_reverse,
      Nat.add_sub_cancel, List.take_left]
  rw [hts]
  exact ⟨hspan, hskip⟩

/-- In front of a cursor, the tokens with code are in the text, with all semicolons. -/
theorem In.code_take (hp : Phase .code b.placed) (h : c.In b) :
    (codeText c.before.reverse).Sublist (b.text.take c.start) ∧
      (codeText c.before.reverse).count ';' = (b.text.take c.start).count ';' := by
  rw [h.take_text]
  exact ⟨codeText_sublist _, count_codeText (h.phase hp).1⟩

/-- So are the tokens from the cursor on. The last line end is no part of the text. -/
theorem In.code_drop (hp : Phase .code b.placed) (h : c.In b) :
    (codeText (c.here :: c.after)).Sublist (b.text.drop c.start) ∧
      (codeText (c.here :: c.after)).count ';' = (b.text.drop c.start).count ';' := by
  have hne : c.here :: c.after ≠ [] := by simp
  have hlast := List.dropLast_concat_getLast hne
  have hend : ((c.here :: c.after).getLast hne).kind = .lineEnd :=
    h.kind_last _ (List.getLast?_eq_some_getLast hne)
  generalize (c.here :: c.after).dropLast = ts at hlast
  generalize (c.here :: c.after).getLast hne = z at hlast hend
  have hphase := (h.phase hp).2.2
  rw [← hlast, phase_append] at hphase
  have hdrop : b.text.drop c.start = StructEdit.rawText ts := by
    have hraw : StructEdit.rawText c.before.reverse ++ StructEdit.rawText (c.here :: c.after) =
      b.text ++ ['\n'] := h.rawText
    rw [← hlast, rawText_append, rawText_cons, rawText_nil, hphase.2.1.lineEnd hend,
      List.append_nil, ← List.append_assoc] at hraw
    rw [← List.append_cancel_right hraw, List.drop_left' h.abut.1.symm]
  have hz : codeText [z] = [] := codeText_eq_nil (by simp [hend, Kind.isSpace])
  rw [← hlast, codeText_append, hz, List.append_nil, hdrop]
  exact ⟨codeText_sublist _, count_codeText hphase.1⟩

/-- The text up to some characters before the end of a token. -/
theorem In.take_part (h : c.In b) (hk : c.kind ≠ .lineEnd) {n : Nat} (hn : n ≤ c.raw.length) :
    b.text.take (c.stop - n) = b.text.take c.start ++ c.raw.take (c.raw.length - n) := by
  have hstop := h.stop_eq hk
  have hraw : (b.text.drop c.start).take c.raw.length = c.raw := by
    have hslice := h.slice_raw hk
    rwa [Text.slice, List.drop_take, hstop, Nat.add_sub_cancel_left] at hslice
  have hpart : c.raw.take (c.raw.length - n) =
      (b.text.drop c.start).take (c.raw.length - n) := by
    rw [← hraw, List.take_take, hraw, Nat.min_eq_left (Nat.sub_le _ _)]
  have hlen : c.stop - n - c.start = c.raw.length - n := by omega
  rw [← Text.take_append_between b.text (show c.start ≤ c.stop - n by omega), List.drop_take, hlen,
    hpart]

/-- The text from behind some characters of a token on. -/
theorem In.drop_part (h : c.In b) (hk : c.kind ≠ .lineEnd) {n : Nat} (hn : n ≤ c.raw.length) :
    b.text.drop (c.start + n) = c.raw.drop n ++ b.text.drop c.stop := by
  have hstop := h.stop_eq hk
  rw [← Text.slice_append_drop b.text (show c.start + n ≤ c.stop by omega), ← h.slice_raw hk,
    Text.slice, Text.slice, List.drop_drop]

theorem count_codeText_skipped_pos (hp : Phase .code b.placed) (h : c.In b)
    (hgap : ∃ q ∈ c.skipped, q.kind = .comment) : 0 < (codeText c.skipped).count ';' := by
  obtain ⟨hspan, -⟩ := c.span_skipped
  have hphase := (h.phase hp).2.2
  rw [hspan.ahead, phase_append] at hphase
  obtain ⟨q, hq, hk⟩ := hgap
  exact count_pos_of_comment hphase.1 hq hk

theorem codeText_skipped_of_no_comment (hgap : ∀ q ∈ c.skipped, q.kind ≠ .comment) :
    codeText c.skipped = [] := by
  refine codeText_eq_nil fun q hq => ?_
  have hskip := c.span_skipped.2 q hq
  have hk := hgap q hq
  revert hskip hk
  cases q.kind <;> decide

/-- Where a text without semicolons comes in the place of the gap, and `front` and `back` are kept on
its sides with all their semicolons, all is kept exactly when there was no comment in the gap. -/
theorem In.keeps_iff (hp : Phase .code b.placed) (h : c.In b) {front back left mid right : Text}
    (hfront : front.Sublist left ∧ front.count ';' = left.count ';')
    (hback : back.Sublist right ∧ back.count ';' = right.count ';') (hmid : ';' ∉ mid) :
    (front ++ codeText c.skipped ++ back).Sublist (left ++ mid ++ right) ↔
      ∀ q ∈ c.skipped, q.kind ≠ .comment := by
  constructor
  · intro hkeeps q hq hk
    have hcount := hkeeps.count_le ';'
    have hpos := count_codeText_skipped_pos hp h ⟨q, hq, hk⟩
    simp only [List.count_append, hfront.2, hback.2, List.count_eq_zero_of_not_mem hmid] at hcount
    omega
  · intro hgap
    rw [codeText_skipped_of_no_comment hgap]
    exact (hfront.1.append (List.nil_sublist mid)).append hback.1

end Cursor

namespace Document

variable {d : Document} {c : Cursor}

/-! ## Splitting -/

theorem delimiter_quiet {o : Text} (ho : o ∈ Bracket.openers ++ Bracket.closers) :
    ';' ∉ o := by
  have hall : ∀ o ∈ Bracket.openers ++ Bracket.closers, ';' ∉ o := by decide
  exact hall o ho

/-- Outside of a string, a split that changes the text puts two brackets into the gap. -/
theorem text_split (hp : Phase .code d.buffer.placed) (hs : d.cursor.withinString = false)
    (hchanged : d.split.text ≠ d.text) :
    let c := d.cursor.backwardSpace true
    ∃ e ∈ Bracket.closers, ∃ o ∈ Bracket.openers,
      d.split.text =
        d.text.take c.start ++ (e ++ ' ' :: o) ++ d.text.drop (c.forwardSpace true).start := by
  have hin : d.cursor.In d.buffer := d.buffer.in_cursorAt d.caret
  have hc := hin.backwardSpace true
  simp only [split, hs, Bool.false_eq_true, ↓reduceIte] at hchanged ⊢
  generalize d.cursor.backwardSpace true = c at hc hchanged ⊢
  cases ho : c.backwardList? with
  | none => simp [ho] at hchanged
  | some o =>
    simp only [ho] at hchanged ⊢
    cases he : o.forwardList? with
    | none => simp [he] at hchanged
    | some e =>
      have hoin := hc.backwardList? ho
      obtain ⟨-, -, hopener, -⟩ := hoin.opener hp (Cursor.backwardList?_eq_some ho).2
      obtain ⟨-, -, hcloser, -⟩ :=
        (hoin.forwardList? he).closing hp (Cursor.forwardList?_eq_some he).2
      refine ⟨e.raw, hcloser, o.prevToken.raw, hopener, ?_⟩
      dsimp only
      rw [text, buffer_perform, Buffer.text_flush, buffer_setCaret, buffer_splice, buffer_begun,
        Buffer.text_replace_of_le]
      · rfl
      · exact hc.start_mono (hc.forwardSpace true) (Cursor.before_length_le_forwardSpace true c)
      · simp [Text.newline_not_mem_delimiter (List.mem_append_left _ hopener),
          Text.newline_not_mem_delimiter (List.mem_append_right _ hcloser)]

theorem split_keeps_iff (hp : Phase .code d.buffer.placed) (hs : d.cursor.withinString = false)
    (hchanged : d.split.text ≠ d.text) :
    (codeText d.buffer.placed).Sublist d.split.text ↔
      ∀ q ∈ (d.cursor.backwardSpace true).skipped, q.kind ≠ .comment := by
  have hin : d.cursor.In d.buffer := d.buffer.in_cursorAt d.caret
  have hc := hin.backwardSpace true
  obtain ⟨e, he, o, ho, htext⟩ := text_split hp hs hchanged
  have hmid : ';' ∉ e ++ ' ' :: o := by
    simp [delimiter_quiet (List.mem_append_left _ ho), delimiter_quiet (List.mem_append_right _ he)]
  generalize d.cursor.backwardSpace true = c at hc htext
  have hplaced : codeText d.buffer.placed = codeText c.before.reverse ++ codeText c.skipped ++
      codeText ((c.forwardSpace true).here :: (c.forwardSpace true).after) := by
    rw [← hc, Cursor.toList, c.span_skipped.1.ahead, codeText_append, codeText_append,
      List.append_assoc]
  rw [hplaced, htext]
  exact hc.keeps_iff hp (hc.code_take hp) ((hc.forwardSpace true).code_drop hp) hmid

/-! ## Joining -/

/-- All that is neither blank nor a line end, without the delimiters on both sides of the gap: the
closing one of the expression in front of it and the opening one of the expression behind it. -/
def joinKeeps (d : Document) : Text :=
  let c := d.cursor.backwardSpace true
  let e := c.forwardSpace true
  codeText c.prev.before.reverse ++ c.prev.raw.take (c.prev.raw.length - c.prev.here.token.edge) ++
    codeText c.skipped ++ (e.raw.drop e.here.token.edge ++ codeText e.after)

theorem joint?_edges {left right : Token} {gapStart gapStop : Nat} {j : Joint}
    (h : joint? left right gapStart gapStop = some j) :
    left.kind ≠ .lineEnd ∧ right.kind ≠ .lineEnd ∧ left.kind.isSpace = false ∧
      j.start = gapStart - left.edge ∧ j.stop = gapStop + right.edge ∧ ';' ∉ j.text ∧
      '\n' ∉ j.text := by
  rcases joint?_cases h with ⟨hl, hr, rfl⟩ | ⟨hl, hr, -, rfl⟩
  · refine ⟨?_, ?_, ?_, ?_, ?_, by simp, by simp⟩ <;>
      rcases hl with hl | hl <;> rcases hr with hr | hr <;>
      simp [hl, hr, Token.edge, Kind.isSpace]
  · refine ⟨by simp [hl], by simp [hr], by simp [hl, Kind.isSpace], ?_, ?_, by simp, by simp⟩ <;>
      simp [hl, hr, Token.edge]

/-- A join that changes the text takes the gap out with a delimiter on each side. -/
theorem text_join (hchanged : d.join.1.text ≠ d.text) :
    let c := d.cursor.backwardSpace true
    let e := c.forwardSpace true
    c.prevKind ≠ .lineEnd ∧ e.kind ≠ .lineEnd ∧ ∃ mid, ';' ∉ mid ∧
      d.join.1.text = d.text.take (c.start - c.prev.here.token.edge) ++ mid ++
        d.text.drop (e.start + e.here.token.edge) := by
  have hin : d.cursor.In d.buffer := d.buffer.in_cursorAt d.caret
  have hc := hin.backwardSpace true
  simp only [join] at hchanged ⊢
  generalize d.cursor.backwardSpace true = c at hc hchanged ⊢
  have hle := hc.start_mono (hc.forwardSpace true) (Cursor.before_length_le_forwardSpace true c)
  split at hchanged
  · simp [Outcome.refused] at hchanged
  · rename_i hw
    cases hj : joint? c.prevToken (c.forwardSpace true).here.token c.start
      (c.forwardSpace true).start with
    | none => simp [hj, Outcome.done] at hchanged
    | some j =>
      obtain ⟨hl, hr, -, hstart, hstop, hmid, hn⟩ := joint?_edges hj
      have hprev : c.prevKind ≠ .lineEnd := c.kind_prevToken ▸ hl
      refine ⟨hprev, hr, j.text, hmid, ?_⟩
      rw [if_neg hw, (Cursor.prev_of_prevKind hprev).1, ← hstart, ← hstop]
      simp only [Outcome.done]
      rw [text, buffer_perform, Buffer.text_flush, buffer_setCaret, buffer_splice, buffer_begun,
        Buffer.text_replace_of_le (by omega) hn]
      rfl

theorem join_keeps_iff (hp : Phase .code d.buffer.placed) (hchanged : d.join.1.text ≠ d.text) :
    d.joinKeeps.Sublist d.join.1.text ↔
      ∀ q ∈ (d.cursor.backwardSpace true).skipped, q.kind ≠ .comment := by
  have hin : d.cursor.In d.buffer := d.buffer.in_cursorAt d.caret
  have hc := hin.backwardSpace true
  obtain ⟨hl, hr, mid, hmid, htext⟩ := text_join hchanged
  unfold joinKeeps
  generalize d.cursor.backwardSpace true = c at hc hl hr htext
  have he := hc.forwardSpace true
  have hlin := (hc.behind hl).1
  have hlk : c.prev.kind ≠ .lineEnd := (hc.behind hl).2.1 ▸ hl
  have hedge : ∀ {l : Cursor}, l.In d.buffer → l.here.token.edge ≤ l.raw.length := fun h =>
    Token.edge_le h.raw_length_pos
  rw [htext]
  refine hc.keeps_iff hp ?_ ?_ hmid
  · have htake := hlin.take_part hlk (hedge hlin)
    rw [(hc.behind hl).2.2.2.1] at htake
    obtain ⟨hsub, hcount⟩ := hlin.code_take hp
    rw [text, htake, List.count_append, List.count_append, hcount]
    exact ⟨hsub.append (List.Sublist.refl _), rfl⟩
  · generalize c.forwardSpace true = e at he hr
    obtain ⟨hspan, hnext⟩ := he.next_of_kind hr
    have hafter : e.after = e.next.here :: e.next.after := (List.cons.inj hspan.ahead).2
    obtain ⟨hsub, hcount⟩ := he.next.code_drop hp
    rw [text, he.drop_part hr (hedge he), hafter, ← hnext, List.count_append, List.count_append,
      hcount]
    exact ⟨(List.Sublist.refl _).append hsub, rfl⟩

/-- Outside of strings, a split that changes the text keeps all characters that belong neither to blanks
nor to line ends, in their order, exactly when no comment stands between the places where the motions
over blanks from the caret end. A join keeps all of them but for the closing delimiter or quote
in front of the gap and the opening one behind it, under the same condition. -/
theorem split_join_keep_iff {d : Document} (hd : d.Reached)
    (hs : d.cursor.withinString = false) :
    (d.split.text ≠ d.text → ((codeText d.buffer.placed).Sublist d.split.text ↔
      ∀ q ∈ (d.cursor.backwardSpace true).skipped, q.kind ≠ .comment)) ∧
    (d.join.1.text ≠ d.text → (d.joinKeeps.Sublist d.join.1.text ↔
      ∀ q ∈ (d.cursor.backwardSpace true).skipped, q.kind ≠ .comment)) := by
  have hp : Phase .code d.buffer.placed :=
    Buffer.phase_placed hd.standing.settled hd.standing.unbroken
  exact ⟨split_keeps_iff hp hs, join_keeps_iff hp⟩

/-- On the way back the motion stops at the end of the line of a comment. So behind it, the comment
stays. -/
theorem split_join_keep_iff_behind :
    let d := (Command.setCaret 7).apply (.ofText ['(', 'a', ' ', ';', 'x', '\n', ' ', 'b', ')'])
    d.split.text = ['(', 'a', ' ', ';', 'x', '\n', ')', ' ', '(', 'b', ')'] ∧
      (codeText d.buffer.placed).Sublist d.split.text := by
  intro d
  have hd : d.Reached := .apply _ (.fresh (.ofText trivial))
  obtain ⟨hsplit, -⟩ := split_join_keep_iff hd (by decide +kernel)
  exact ⟨by decide +kernel, (hsplit (by decide +kernel)).2 (by decide +kernel)⟩

/-- In front of a comment, both commands take it out with the blanks. -/
theorem not_keeps_comment :
    let d := (Command.setCaret 2).apply (.ofText ['(', 'a', ' ', ';', 'x', '\n', ' ', 'b', ')'])
    let e := (Command.setCaret 3).apply
      (.ofText ['(', 'a', ')', ' ', ';', 'x', '\n', '(', 'b', ')'])
    d.cursor.withinString = false ∧ codeText d.buffer.placed = ['(', 'a', ';', 'x', 'b', ')'] ∧
      d.split.text = ['(', 'a', ')', ' ', '(', 'b', ')'] ∧
      ¬(codeText d.buffer.placed).Sublist d.split.text ∧
      e.cursor.withinString = false ∧ e.joinKeeps = ['(', 'a', ';', 'x', 'b', ')'] ∧
      e.join.1.text = ['(', 'a', ' ', 'b', ')'] ∧ ¬e.joinKeeps.Sublist e.join.1.text := by
  decide +kernel

end Document
end StructEdit
