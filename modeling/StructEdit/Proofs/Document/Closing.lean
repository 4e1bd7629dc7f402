import StructEdit.Proofs.Document.AtCaret
import StructEdit.Proofs.Document.Gaps
import StructEdit.Proofs.Document.SingleStep

/-!
# Strings stay closed

In a text without comments the caret stands in code, in a string, or right behind a backslash that
escapes the next character. The commands that type quotes tell these apart by the token at the
caret, and those that delete by the characters around it. After each of them no string is open at
the end of the text, if none was open before and the command did not slip.
-/
namespace StructEdit

/-! ## Places at the caret -/

theorem Place.along_ne_comment {ts : List Placed} (h : ∀ q ∈ ts, q.kind ≠ .comment) {p : Place}
    (hp : p ≠ .comment) : p.along ts ≠ .comment := by
  induction ts generalizing p with
  | nil => exact hp
  | cons q ts ih =>
    rw [Place.along_cons]
    refine ih (fun x hx => h x (List.mem_cons_of_mem q hx)) ?_
    have hq := h q List.mem_cons_self
    cases p <;> cases hk : q.kind <;> simp_all [Place.pass]

/-- The quotes of a split close a string and open another one, or the other way round. -/
theorem Place.after_quotes {p : Place} (hcomment : p ≠ .comment) (hescape : p ≠ .escape) :
    p.after ['"', ' ', '"'] = p := by
  cases p <;> first | rfl | exact absurd rfl hcomment | exact absurd rfl hescape

namespace Cursor

variable {b : Buffer} {c : Cursor}

/-- The token before the cursor leads to its place. -/
theorem In.pass_prevKind (h : c.In b) (hp : Phase .code b.placed) (hk : c.prevKind ≠ .lineEnd) :
    (b.text.placeAt c.prev.start).admits c.prevKind = true ∧
      b.text.placeAt c.start = (b.text.placeAt c.prev.start).pass c.prevKind := by
  obtain ⟨hin, hkind, -, hstop, -⟩ := h.behind hk
  have hne : c.prev.kind ≠ .lineEnd := by rwa [hkind]
  obtain ⟨hspan, hnext⟩ := hin.next_of_kind hne
  have hplace := (hin.fencesBetween hin.next hp hspan).2.2
  have hadmits : (b.text.placeAt c.prev.start).admits c.prev.kind = true :=
    (hin.phase hp).2.2.1.admits
  rw [hnext, hstop] at hplace
  rw [← hkind]
  exact ⟨hadmits, hplace⟩

/-- A line end within a string is in one. -/
theorem In.string_of_lineEnd (h : c.In b) (hp : Phase .code b.placed) (hk : c.kind = .lineEnd)
    (hw : c.withinString = true) : b.text.placeAt c.start = .string := by
  have hprev : c.prevKind = .stringMiddle ∨ c.prevKind = .stringStart := by
    simpa [withinString, hk, Kind.isString] using hw
  obtain ⟨hadmits, hplace⟩ := h.pass_prevKind hp (by rcases hprev with hk | hk <;> simp [hk])
  rw [hplace]
  generalize b.text.placeAt c.prev.start = p at hadmits
  rcases hprev with hk | hk <;> rw [hk] at hadmits ⊢ <;>
    cases p <;> simp_all [Place.admits, Place.pass]

end Cursor

namespace Buffer

variable {b : Buffer} {i : Nat}

/-- Without comment tokens, the text of a buffer is bare. -/
theorem bare_of_no_comment (hp : Phase .code b.placed)
    (hnone : ∀ q ∈ b.placed, q.kind ≠ .comment) : b.text.Bare := by
  intro front back htext hcomment
  have hi : front.length ≤ b.maxOffset := by
    rw [← b.length_text, htext, List.length_append]
    omega
  have hplace : b.text.placeAt front.length = .comment := by
    rw [Text.placeAt, htext, List.take_left]
    exact hcomment
  have hin := b.in_cursorAt front.length
  rcases place_cursorAt hp hi with heq | ⟨-, hholds⟩
  · have halong := (hin.phase hp).2.1
    rw [heq, hplace] at halong
    refine Place.along_ne_comment (fun q hq => hnone q ?_) (by simp) halong
    rw [← hin, Cursor.toList]
    exact List.mem_append_left _ hq
  · rw [hplace] at hholds
    exact hnone _ hin.here_mem hholds

variable (hp : Phase .code b.placed) (hi : i ≤ b.maxOffset)
include hp hi

/-- Within a string, the caret stands at a line end in the string, or in or in front of a token of
one. -/
theorem cases_withinString (hw : (b.cursorAt i).withinString = true) :
    (b.cursorAt i).kind = .lineEnd ∧ b.text.placeAt i = .string ∨
      (b.cursorAt i).kind.isString = true := by
  by_cases hk : (b.cursorAt i).kind = .lineEnd
  · refine Or.inl ⟨hk, ?_⟩
    have hin := b.in_cursorAt i
    have hlt := lt_cursorAt hi
    rw [hin.raw_of_lineEnd hp hk, List.length_singleton] at hlt
    have hstart : (b.cursorAt i).start = i := by
      have := b.start_cursorAt_le i
      omega
    rw [← hin.string_of_lineEnd hp hk hw, hstart]
  · exact Or.inr (by simpa [Cursor.withinString, hk] using hw)

/-- Within a string and not in front of it, the caret is not in code. -/
theorem not_code_of_withinString (hw : (b.cursorAt i).withinString = true)
    (hfront : ¬((b.cursorAt i).start = i ∧
      ((b.cursorAt i).kind = .string ∨ (b.cursorAt i).kind = .stringStart))) :
    b.text.placeAt i ≠ .code := by
  intro hcode
  rcases cases_withinString hp hi hw with ⟨-, hstring⟩ | hk
  · cases hcode.symm.trans hstring
  rcases place_cursorAt hp hi with heq | ⟨-, hholds⟩
  · have hadmits := (piece_cursorAt hp hi).1.admits
    rw [heq, hcode] at hadmits
    refine hfront ⟨heq, ?_⟩
    revert hk hadmits
    cases (b.cursorAt i).kind <;> simp [Kind.isString, Place.admits]
  · rw [hcode] at hholds
    cases hk.symm.trans hholds.2

/-- Within a string, a backslash does not escape a line break. -/
theorem not_break_of_withinString (hb : b.Unbroken) (hw : (b.cursorAt i).withinString = true)
    (he : b.text.placeAt i = .escape) : (b.text.drop i).head? ≠ some '\n' := by
  have hin := b.in_cursorAt i
  rcases cases_withinString hp hi hw with ⟨-, hstring⟩ | hk
  · cases he.symm.trans hstring
  have hne : (b.cursorAt i).kind ≠ .lineEnd := by
    intro hend
    simp [hend, Kind.isString] at hk
  have hlt := lt_cursorAt hi
  have hsum : (b.cursorAt i).start + (i - (b.cursorAt i).start) = i :=
    Nat.add_sub_cancel' (b.start_cursorAt_le i)
  have hdrop := hin.drop_part hne (show i - (b.cursorAt i).start ≤ _ by omega)
  rw [hsum] at hdrop
  have hraw : (b.cursorAt i).raw.drop (i - (b.cursorAt i).start) ≠ [] := by
    rw [Ne, List.drop_eq_nil_iff]
    omega
  obtain ⟨c, rest, hc⟩ := List.exists_cons_of_ne_nil hraw
  rw [hdrop, hc]
  intro hhead
  obtain rfl : c = '\n' := Option.some.inj hhead
  exact hin.newline_not_mem_raw hb hne (List.mem_of_mem_drop (hc ▸ List.mem_cons_self))

/-- Outside of strings, a backslash that comes before the end of the text escapes a line break. -/
theorem break_of_not_withinString (hw : (b.cursorAt i).withinString = false)
    (he : b.text.placeAt i = .escape) (hend : (Place.code.after b.text).isFinal = true) :
    (b.text.drop i).head? = some '\n' := by
  obtain ⟨hstart, hk⟩ := lineEnd_of_escape hp hi hw he
  have hlt : i < b.maxOffset := by
    refine Nat.lt_of_le_of_ne hi fun hmax => ?_
    rw [Text.placeAt, hmax, ← b.length_text, List.take_length] at he
    rw [he] at hend
    cases hend
  obtain ⟨rest, hrest⟩ := (b.in_cursorAt i).drop_of_lineEnd hp hk (by omega)
  rw [hstart] at hrest
  rw [hrest]
  rfl

/-- In front of its last character, a closed string is still open. -/
theorem string_of_stop (hk : (b.cursorAt i).kind = .string ∨ (b.cursorAt i).kind = .stringEnd)
    (hstop : (b.cursorAt i).stop = i + 1) : b.text.placeAt i = .string := by
  have hin := b.in_cursorAt i
  have hne : (b.cursorAt i).kind ≠ .lineEnd := by rcases hk with hk | hk <;> simp [hk]
  obtain ⟨hsuits, hplace, -⟩ := piece_cursorAt hp hi
  have hpos := hin.raw_length_pos
  have hlen := hin.stop_eq hne
  have hcut : i - (b.cursorAt i).start = (b.cursorAt i).raw.length - 1 := by omega
  rw [hplace, hcut]
  exact hsuits.string_last hk (List.length_pos_iff.1 hpos)

end Buffer

namespace Document

variable {d : Document} {u v : Text}

/-! ## Typing a quote -/

theorem after_typed {s : Text} (h : d.buffer.text = u ++ v) (hs : '\r' ∉ s) (n : Nat) :
    Place.code.after (d.perform fun d => (d.splice u.length u.length s).setCaret n).buffer.text =
      ((Place.code.after u).after s).after v := by
  rw [text_typed h hs, Place.after_append, Place.after_append]

section Caret

variable (hd : d.Standing) (hempty : d.selection.isEmpty = true) (h : d.buffer.text = u ++ v)
  (hu : u.length = d.caret)

omit hempty in
include hd h hu in
/-- The reader at the caret, and what is known there about the tokens. -/
theorem placeAt_caret : d.buffer.text.placeAt d.caret = Place.code.after u ∧
    d.buffer.text.drop d.caret = v ∧ d.caret ≤ d.buffer.maxOffset ∧
      Phase .code d.buffer.placed := by
  refine ⟨?_, ?_, hd.fits.2, Buffer.phase_placed hd.settled hd.unbroken⟩
  · rw [Text.placeAt, ← hu, h, List.take_left]
  · rw [← hu, h, List.drop_left]

include hd hempty h hu

/-- A quote that is typed behind an escaping backslash takes its place. -/
theorem after_quote_of_escape (he : Place.code.after u = .escape) :
    Place.code.after d.quote.buffer.text = Place.code.after v := by
  obtain ⟨hplace, -, hi, hp⟩ := placeAt_caret hd h hu
  unfold quote
  simp only [hempty, Bool.true_eq_false, ↓reduceIte]
  split
  · rw [← hu, after_typed h (by simp), he]
    rfl
  split
  · rename_i hstop
    have hstring := Buffer.string_of_stop hp hi hstop.1 hstop.2
    cases he.symm.trans (hplace.symm.trans hstring)
  · rw [← hu, after_typed h (by simp), he]
    rfl

/-- Anywhere else the reader is where it was before. -/
theorem after_quote (hplace' : Place.code.after u = .code ∨ Place.code.after u = .string) :
    Place.code.after d.quote.buffer.text = Place.code.after d.buffer.text := by
  obtain ⟨hplace, -, hi, hp⟩ := placeAt_caret hd h hu
  have htext : Place.code.after d.buffer.text = (Place.code.after u).after v := by
    rw [h, Place.after_append]
  rw [htext]
  unfold quote
  simp only [hempty, Bool.true_eq_false, ↓reduceIte]
  split
  · rw [← hu, after_typed h (by simp)]
    rcases hplace' with hcode | hstring
    · rw [hcode]
      rfl
    · rw [hstring]
      rfl
  rename_i hinside
  rw [not_or, Bool.not_eq_false] at hinside
  split
  · rw [buffer_setCaret, htext]
  · have hne := Buffer.not_code_of_withinString hp hi hinside.1 hinside.2
    have hstring := hplace'.resolve_left (hplace ▸ hne)
    rw [← hu, after_typed h (by simp), hstring]
    rfl

/-! ## Splitting -/

omit hempty h hu in
/-- Outside of strings, a split leaves the text closed. -/
theorem closed_split (hbare : d.buffer.text.Bare)
    (hclosed : (Place.code.after d.buffer.text).isFinal = true)
    (hs : d.cursor.withinString = false) :
    (Place.code.after d.split.buffer.text).isFinal = true := by
  have hp : Phase .code d.buffer.placed := Buffer.phase_placed hd.settled hd.unbroken
  by_cases hchanged : d.split.text = d.text
  · rw [text, text] at hchanged
    rw [hchanged]
    exact hclosed
  obtain ⟨e, he, o, ho, htext⟩ := text_split hp hs hchanged
  have hin : d.cursor.In d.buffer := d.buffer.in_cursorAt d.caret
  have hc := hin.backwardSpace true
  obtain ⟨hcode, hstring⟩ := Buffer.place_forwardSpace hp hclosed hc
  rw [text, text] at htext
  generalize d.cursor.backwardSpace true = c at hc htext hcode hstring
  have hcomment : d.buffer.text.placeAt c.start ≠ .comment :=
    hbare _ _ (List.take_append_drop c.start d.buffer.text).symm
  rw [htext]
  by_cases hk : d.buffer.text.placeAt c.start = .code
  · have hall : ∀ e ∈ Bracket.closers, ∀ o ∈ Bracket.openers,
        Place.code.after (e ++ ' ' :: o) = .code := by decide
    have hmid : Piece (d.buffer.text.placeAt c.start) (e ++ ' ' :: o) _ .code :=
      ⟨rfl, hk ▸ hall e he o ho⟩
    exact (hcode hk).isFinal hmid hclosed
  · have hrejoins : d.buffer.text.Rejoins .string (c.forwardSpace true).start :=
      Or.inl (hstring hk hcomment).symm
    exact hrejoins.isFinal (Buffer.piece_split he ho hk hcomment) hclosed

omit hempty in
/-- A split leaves the text closed, or the quotes come between a backslash and what it escapes. -/
theorem closed_split_or_slip (hbare : d.buffer.text.Bare)
    (hclosed : (Place.code.after d.buffer.text).isFinal = true) :
    (Place.code.after d.split.buffer.text).isFinal = true ∨ ∃ e, Slip .split u v e := by
  cases hs : d.cursor.withinString with
  | false => exact Or.inl (closed_split hd hbare hclosed hs)
  | true =>
    obtain ⟨hplace, hdrop, hi, hp⟩ := placeAt_caret hd h hu
    have hcomment : Place.code.after u ≠ .comment := hbare u v h
    rw [split, if_pos hs]
    rcases text_splitString h hu with ⟨htext, hmark⟩ | ⟨t, rfl, htext⟩
    · by_cases he : Place.code.after u = .escape
      · refine Or.inr ⟨_, .splitEscaped he (fun hhead => hmark ⟨?_, hhead⟩) ?_⟩
        · exact Text.getLast?_of_escape he
        · rw [← hdrop]
          exact Buffer.not_break_of_withinString hp hi hd.unbroken hs (hplace.trans he)
      · left
        rwa [htext, Place.after_append, Place.after_append, Place.after_quotes hcomment he,
          ← Place.after_append, ← h]
    · have hquote : Place.code.after (u ++ ['"']) ≠ .comment ∧
          Place.code.after (u ++ ['"']) ≠ .escape := by
        rw [Place.after_append]
        revert hcomment
        cases Place.code.after u <;> simp [Place.after, Place.step]
      have hcut : u ++ ['"'] ++ t = d.buffer.text := by rw [h]; simp
      left
      rwa [htext, Place.after_append, Place.after_append, Place.after_quotes hquote.1 hquote.2,
        ← Place.after_append, hcut]

omit hempty in
theorem after_split_of_slip (hclosed : (Place.code.after d.buffer.text).isFinal = true) {e : Place}
    (hslip : Slip .split u v e) : Place.code.after d.split.buffer.text = e := by
  obtain ⟨hplace, hdrop, hi, hp⟩ := placeAt_caret hd h hu
  cases hslip with
  | splitEscaped he hquote hbreak =>
    have hs : d.cursor.withinString = true := by
      refine Bool.of_not_eq_false fun hs => hbreak ?_
      rw [← hdrop]
      exact Buffer.break_of_not_withinString hp hi hs (hplace.trans he) hclosed
    rw [split, if_pos hs]
    rcases text_splitString h hu with ⟨htext, -⟩ | ⟨t, rfl, -⟩
    · rw [htext, Place.after_append, Place.after_append, he]
      rfl
    · exact absurd rfl hquote

/-! ## Strings stay closed -/

theorem closed_quote_or_slip (hbare : d.buffer.text.Bare)
    (hclosed : (Place.code.after d.buffer.text).isFinal = true) :
    (Place.code.after d.quote.buffer.text).isFinal = true ∨ ∃ e, Slip .quote u v e := by
  have hsame := after_quote hd hempty h hu
  cases hu' : Place.code.after u with
  | comment => exact absurd hu' (hbare u v h)
  | escape => exact Or.inr ⟨_, .quoteEscaped hu'⟩
  | code => exact Or.inl (by rw [hsame (Or.inl hu'), hclosed])
  | string => exact Or.inl (by rw [hsame (Or.inr hu'), hclosed])

omit hd in
theorem closed_backspacePair_or_slip (hbare : d.buffer.text.Bare)
    (hclosed : (Place.code.after d.buffer.text).isFinal = true) :
    (Place.code.after d.backspacePair.buffer.text).isFinal = true ∨
      ∃ e, Slip .backspacePair u v e := by
  rw [← List.reverse_reverse u] at h ⊢
  rw [text_backspacePair hempty h (by rw [List.length_reverse, hu])]
  refine (Text.after_backspaced (h ▸ hbare)).imp_left fun heq => ?_
  rw [heq, ← h, hclosed]

omit hd in
theorem closed_deletePairForward_or_slip (hbare : d.buffer.text.Bare)
    (hclosed : (Place.code.after d.buffer.text).isFinal = true) :
    (Place.code.after d.deletePairForward.buffer.text).isFinal = true ∨
      ∃ e, Slip .deletePairForward u v e := by
  rw [← List.reverse_reverse u] at h ⊢
  rw [text_deletePairForward hempty h (by rw [List.length_reverse, hu])]
  refine (Text.after_deletedAhead (h ▸ hbare)).imp_left fun heq => ?_
  rw [heq, ← h, hclosed]

/-- A command at the caret leaves the text closed, or it makes a slip. -/
theorem closed_or_slip (hbare : d.buffer.text.Bare)
    (hclosed : (Place.code.after d.buffer.text).isFinal = true) {k : Command} (hk : k.AtCaret) :
    (Place.code.after (k.apply d).buffer.text).isFinal = true ∨ ∃ e, Slip k u v e := by
  cases k with
  | backspacePair => exact closed_backspacePair_or_slip hempty h hu hbare hclosed
  | deletePairForward => exact closed_deletePairForward_or_slip hempty h hu hbare hclosed
  | quote => exact closed_quote_or_slip hd hempty h hu hbare hclosed
  | split => exact closed_split_or_slip hd h hu hbare hclosed
  | _ => exact hk.elim

/-- Behind a slip the reader comes to the place that the slip tells. -/
theorem after_of_slip (hclosed : (Place.code.after d.buffer.text).isFinal = true) {k : Command}
    {e : Place} (hk : k.AtCaret) (hslip : Slip k u v e) :
    Place.code.after (k.apply d).buffer.text = e := by
  have hreverse : d.buffer.text = u.reverse.reverse ++ v := by rw [List.reverse_reverse, h]
  have hlen : u.reverse.length = d.caret := by rw [List.length_reverse, hu]
  cases k with
  | backspacePair =>
    have htext : (Command.backspacePair.apply d).buffer.text = Text.backspaced u.reverse v :=
      text_backspacePair hempty hreverse hlen
    rw [htext]
    exact Text.after_backspaced_of_slip hslip
  | deletePairForward =>
    have htext : (Command.deletePairForward.apply d).buffer.text = Text.deletedAhead u.reverse v :=
      text_deletePairForward hempty hreverse hlen
    rw [htext]
    exact Text.after_deletedAhead_of_slip hslip
  | quote =>
    cases hslip with
    | quoteEscaped he => exact after_quote_of_escape hd hempty h hu he
  | split => exact after_split_of_slip hd h hu hclosed hslip
  | _ => exact hk.elim

end Caret

/-- A reachable document is cut at its caret, and no comment starts in the text when there is none
among the tokens. -/
theorem Reached.cut_caret (hd : d.Reached)
    (hnone : ∀ t ∈ d.buffer.lines.flatMap Line.tokens, t.kind ≠ .comment) :
    d.buffer.text.Bare ∧ d.buffer.text = d.text.take d.caret ++ d.text.drop d.caret ∧
      (d.text.take d.caret).length = d.caret := by
  refine ⟨?_, (List.take_append_drop _ _).symm, ?_⟩
  · refine Buffer.bare_of_no_comment
      (Buffer.phase_placed hd.standing.settled hd.standing.unbroken) fun q hq => hnone q.token ?_
    rw [← map_token_placeLines 0 0 d.buffer.lines]
    exact List.mem_map_of_mem hq
  · rw [List.length_take, text, d.buffer.length_text]
    exact Nat.min_eq_left hd.standing.fits.2

theorem Reached.closed_iff (hd : d.Reached) :
    d.buffer.Closed ↔ (Place.code.after d.buffer.text).isFinal = true :=
  Buffer.closed_iff hd.standing.settled hd.standing.unbroken

/-- Where no backslash is right at the caret, a closed text stays closed. -/
theorem closed_apply_of_no_backslash (hd : d.Reached)
    (hnone : ∀ t ∈ d.buffer.lines.flatMap Line.tokens, t.kind ≠ .comment)
    (hclosed : d.buffer.Closed) (hempty : d.selection.isEmpty = true) {k : Command} (hk : k.AtCaret)
    (hslash : '\\' ∉ (d.text.take d.caret).reverse.take 2 ++ (d.text.drop d.caret).take 1) :
    (k.apply d).buffer.Closed := by
  obtain ⟨hbare, h, hu⟩ := hd.cut_caret hnone
  have hfinal := hd.closed_iff.1 hclosed
  refine (hd.apply k).closed_iff.2 ?_
  refine (closed_or_slip hd.standing hempty h hu hbare hfinal hk).resolve_right ?_
  rintro ⟨e, he⟩
  exact hslash (Text.backslash_of_slip he)

/-- In a text without comments in which no string is open at the end, a command that types or
deletes at the caret leaves none open either, unless it slips. When it slips, the string at the end
is open exactly when the reader comes to a place in one. -/
theorem closed_apply_iff (hd : d.Reached)
    (hnone : ∀ t ∈ d.buffer.lines.flatMap Line.tokens, t.kind ≠ .comment)
    (hclosed : d.buffer.Closed) (hempty : d.selection.isEmpty = true) {k : Command} (hk : k.AtCaret) :
    (k.apply d).buffer.Closed ↔
      ∀ e, Slip k (d.text.take d.caret) (d.text.drop d.caret) e → e.isFinal = true := by
  obtain ⟨hbare, h, hu⟩ := hd.cut_caret hnone
  have hfinal := hd.closed_iff.1 hclosed
  have hslip := fun e => after_of_slip (e := e) hd.standing hempty h hu hfinal hk
  rw [(hd.apply k).closed_iff]
  constructor
  · intro hstays e he
    rwa [← hslip e he]
  · intro hall
    rcases closed_or_slip hd.standing hempty h hu hbare hfinal hk with hstays | ⟨e, he⟩
    · exact hstays
    · rw [hslip e he]
      exact hall e he

/-- Behind a closed string, a quote is typed together with its partner. -/
theorem closed_apply_iff_quote :
    let d := (Command.setCaret 4).apply (.ofText ['"', '\\', '\\', '"'])
    (Command.quote.apply d).buffer.Closed ∧
      ∀ e, Slip .quote (d.text.take d.caret) (d.text.drop d.caret) e → e.isFinal = true := by
  intro d
  have hd : d.Reached := .apply _ (.fresh (.ofText trivial))
  have hclosed : (Command.quote.apply d).buffer.Closed := by decide +kernel
  have hk : Command.quote.AtCaret := trivial
  exact ⟨hclosed, (closed_apply_iff hd (by decide +kernel) (by decide +kernel) (by decide +kernel)
    hk).1 hclosed⟩

/-- A backslash in a string may be escaped itself. Deleting backwards behind the closing quote of a
string that ends in such a backslash takes both out and leaves the string open. -/
theorem not_closed_backspacePair :
    let d := (Command.setCaret 4).apply (.ofText ['"', '\\', '\\', '"'])
    (∀ t ∈ d.buffer.lines.flatMap Line.tokens, t.kind ≠ .comment) ∧ d.buffer.Closed ∧
      d.selection.isEmpty = true ∧ (Command.backspacePair.apply d).text = ['"', '\\'] ∧
      ¬(Command.backspacePair.apply d).buffer.Closed := by
  decide +kernel

end Document
end StructEdit
