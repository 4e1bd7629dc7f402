import StructEdit.Proofs.Balance.Edits

/-!
# Wrapping, splitting and joining balanced text

For each command, the condition under which it leaves a balanced text, as a property of the
buffer and the caret. Joining always does.
-/
namespace StructEdit

namespace Cursor

variable {b : Buffer} {c : Cursor}

theorem kind_prevToken (c : Cursor) : c.prevToken.kind = c.prevKind := by
  obtain ⟨before, here, after⟩ := c
  cases before <;> rfl

theorem In.drop_of_lineEnd (h : c.In b) (hp : Phase .code b.placed) (hk : c.kind = .lineEnd)
    (hlt : c.start < b.maxOffset) : ∃ rest, b.text.drop c.start = '\n' :: rest := by
  have hraw := congrArg (List.drop c.start) h.rawText
  rw [h.raw_of_lineEnd hp hk, List.drop_left' h.abut.1.symm,
    List.drop_append_of_le_length (by rw [b.length_text]; omega)] at hraw
  cases hd : b.text.drop c.start with
  | nil =>
    have := List.drop_eq_nil_iff.1 hd
    rw [b.length_text] at this
    omega
  | cons x rest =>
    rw [hd] at hraw
    obtain ⟨rfl, -⟩ := List.cons.inj hraw
    exact ⟨rest, rfl⟩

end Cursor

/-- What is joined: two strings, or two lists of one family. -/
theorem Document.joint?_cases {left right : Token} {gapStart gapStop : Nat} {j : Joint}
    (h : joint? left right gapStart gapStop = some j) :
    (left.kind = .string ∨ left.kind = .stringEnd) ∧
        (right.kind = .string ∨ right.kind = .stringStart) ∧
        j = ⟨gapStart - 1, gapStop + 1, [], gapStart - 1⟩ ∨
      left.kind = .closing ∧ right.kind = .opening ∧ Bracket.paired left.raw right.raw = true ∧
        j = ⟨gapStart - left.length, gapStop + right.length, [' '],
          gapStart - left.length + 1⟩ := by
  unfold joint? at h
  split at h
  all_goals rename_i hl hr
  · exact Or.inl ⟨Or.inl hl, Or.inl hr, (Option.some.inj h).symm⟩
  · exact Or.inl ⟨Or.inl hl, Or.inr hr, (Option.some.inj h).symm⟩
  · exact Or.inl ⟨Or.inr hl, Or.inl hr, (Option.some.inj h).symm⟩
  · exact Or.inl ⟨Or.inr hl, Or.inr hr, (Option.some.inj h).symm⟩
  · split at h
    · rename_i hp
      exact Or.inr ⟨hl, hr, hp, (Option.some.inj h).symm⟩
    · simp at h
  · simp at h

namespace Buffer

variable {b : Buffer} {i : Nat}

/-- Behind a backslash at the end of a line comes the break. -/
theorem Nested.newline_of_escape {j : Nat} (hb : b.Nested) (hi : i ≤ b.maxOffset)
    (hs : (b.cursorAt i).withinString = false) (hij : i < j) (hj : j ≤ b.maxOffset)
    (he : b.text.placeAt i = .escape) : ∃ rest, (b.text.take j).drop i = '\n' :: rest := by
  obtain ⟨hstart, hk⟩ := lineEnd_of_escape hb.phase hi hs he
  obtain ⟨rest, hrest⟩ := (b.in_cursorAt i).drop_of_lineEnd hb.phase hk (by omega)
  rw [hstart] at hrest
  obtain ⟨n, hn⟩ : ∃ n, j - i = n + 1 := ⟨j - i - 1, by omega⟩
  rw [List.drop_take, hrest, hn, List.take_succ_cons]
  exact ⟨_, rfl⟩

/-- Both delimiters come to stand in code or both do not, and the expression leaves no list of
another family. -/
def KeepsWrap (b : Buffer) (i : Nat) (k : Bracket) : Prop :=
  let c := b.cursorAt i
  let j := (c.forwardSexp true).cursor.start
  c.withinString = true ∨
    (b.text.placeAt i = .code ↔ b.text.placeAt j = .code) ∧
      (b.text.placeAt i = .code → ∀ y ∈ b.text.closed i j, y = k)

theorem Nested.wrap_iff (hb : b.Nested) (hi : i ≤ b.maxOffset)
    (hs : (b.cursorAt i).withinString = false) {j : Nat} (hij : i ≤ j) (hj : j ≤ b.maxOffset)
    (hplace : b.text.placeAt j = .code ∨ b.text.placeAt j = .comment) {l : List Bracket}
    (hl : nest l (b.text.fencesBetween i j) = some []) {o e : Text} {k : Bracket}
    (ho : o ∈ Bracket.openers) (hko : Bracket.ofText? o = some k) (he : e ∈ Bracket.closers)
    (hke : Bracket.ofText? e = some k) :
    Text.Balanced (b.text.take i ++ (o ++ (b.text.take j).drop i ++ e) ++ b.text.drop j) ↔
      (b.text.placeAt i = .code ↔ b.text.placeAt j = .code) ∧
        (b.text.placeAt i = .code → ∀ y ∈ b.text.closed i j, y = k) := by
  have hbal := hb.balanced
  obtain ⟨hclosed, hlists⟩ := hbal.lists_closed hij hl
  have hbetween := Text.piece_between b.text hij
  rw [hclosed]
  have hfirst : ∃ fs, Piece (b.text.placeAt i) (o ++ (b.text.take j).drop i) fs (b.text.placeAt j) ∧
      (b.text.placeAt i = .code → fs = .opens k :: b.text.fencesBetween i j) ∧
      (b.text.placeAt i ≠ .code → fs = b.text.fencesBetween i j) := by
    by_cases hcode : b.text.placeAt i = .code
    · rw [hcode] at hbetween ⊢
      exact ⟨_, (piece_opener ho hko).append hbetween, fun _ => rfl, fun h => absurd rfl h⟩
    · refine ⟨_, hbetween.quiet hcode (List.mem_append_left _ ho) fun hescape => ?_,
        fun h => absurd h hcode, fun _ => rfl⟩
      have hlt : i < j := by
        rcases Nat.eq_or_lt_of_le hij with rfl | hlt
        · rcases hplace with hp | hp <;> rw [hp] at hescape <;> simp at hescape
        · exact hlt
      exact hb.newline_of_escape hi hs hlt hj hescape
  obtain ⟨fs, hpiece, hin, hout⟩ := hfirst
  rcases hplace with hplace | hplace
  · have hlast : Piece (b.text.placeAt j) e [.closes k] .code := by
      rw [hplace]
      exact piece_closer he hke
    rw [hbal.splice_iff (hpiece.append hlast) (Or.inl hplace.symm), hplace, hlists]
    by_cases hcode : b.text.placeAt i = .code
    · rw [hin hcode, List.cons_append, nest_opens, nest_around hl]
      simp [hcode]
    · rw [hout hcode, nest_append_eq_some]
      simp only [hcode, false_iff, not_true_eq_false, false_and, iff_false]
      rintro ⟨n, hn, hclose⟩
      rw [nest_frame hl] at hn
      obtain rfl := Option.some.inj hn
      obtain ⟨rest, hrest, heq⟩ := nest_closes_eq_some.1 hclose
      rw [List.nil_append, Option.some.inj heq] at hrest
      exact absurd (congrArg List.length hrest) (by simp)
  · have hlast : Piece (b.text.placeAt j) e [] .comment := by
      obtain ⟨hne, hquiet⟩ := quiet_of_delimiter (List.mem_append_right _ he)
      rw [hplace]
      exact Place.piece_quiet (by simp) hne hquiet
    rw [hbal.splice_iff (hpiece.append hlast) (Or.inl hplace.symm), hplace, hlists,
      List.append_nil]
    by_cases hcode : b.text.placeAt i = .code
    · rw [hin hcode, nest_opens]
      simp only [hcode, reduceCtorEq, iff_false, not_true_eq_false, false_and]
      intro hn
      have := (nest_of_closes hl).1 hn
      exact absurd (congrArg List.length this) (by simp)
    · rw [hout hcode, nest_frame hl]
      simp [hcode]

/-! ## Splitting -/

/-- A string is split behind no backslash, or else what follows can be read as code. A list is split
at a place where the delimiters that are put there are of the family of the innermost list. -/
def KeepsSplit (b : Buffer) (i : Nat) : Prop :=
  if (b.cursorAt i).withinString then
    let p := if b.around i 1 1 = ['\\', '"'] then i + 1 else i
    b.text.placeAt p = .escape → Text.Closes .code (b.text.listsAt p) (b.text.drop p)
  else
    let c := (b.cursorAt i).backwardSpace true
    match c.backwardList? with
    | none => True
    | some o =>
      match o.forwardList? with
      | none => True
      | some e =>
        b.text.placeAt c.start = .code →
          (b.text.listsAt c.start).head? = Bracket.ofText? e.raw ∧
            (b.text.listsAt c.start).head? = Bracket.ofText? o.prevToken.raw

theorem Nested.splitString_iff (hb : b.Nested) (p : Nat) :
    Text.Balanced (b.text.take p ++ ['"', ' ', '"'] ++ b.text.drop p) ↔
      (b.text.placeAt p = .escape → Text.Closes .code (b.text.listsAt p) (b.text.drop p)) := by
  have hquotes : ∀ q : Place,
      Piece q ['"', ' ', '"'] [] (if q = .escape then .code else q) := by
    intro q
    cases q <;> exact ⟨rfl, rfl⟩
  have hmid := hquotes (b.text.placeAt p)
  by_cases he : b.text.placeAt p = .escape
  · rw [if_pos he] at hmid
    rw [hb.balanced.splice_iff_closes hmid]
    simp [he]
  · rw [if_neg he] at hmid
    rw [hb.balanced.splice_iff hmid (Or.inl rfl)]
    simp [he]

/-- Blanks ahead lead from code to code or to a comment at the end, and stay in a string. -/
theorem place_forwardSpace (hb : Phase .code b.placed)
    (hend : (Place.code.after b.text).isFinal = true) {c : Cursor} (hc : c.In b) :
    (b.text.placeAt c.start = .code → b.text.Rejoins .code (c.forwardSpace true).start) ∧
      (b.text.placeAt c.start ≠ .code → b.text.placeAt c.start ≠ .comment →
        b.text.placeAt (c.forwardSpace true).start = .string) := by
  obtain ⟨ts, hspan, hskip⟩ := Cursor.span_forwardSpace true c
  have hin := hc.forwardSpace true
  obtain ⟨-, -, hplace⟩ := hc.fencesBetween hin hb hspan
  have hphase := (hc.phase hb).2.2
  rw [hspan.ahead, phase_append] at hphase
  have hfinal := Cursor.isFinal_along_skipped hskip hphase.1
  rw [← hplace] at hfinal
  have hlast : ∀ p : Place, b.text.placeAt (c.forwardSpace true).start = p →
      p = .comment ∨ p = .escape → (c.forwardSpace true).after = [] := by
    intro p hp hnot
    have hadmits : (b.text.placeAt _).admits (c.forwardSpace true).kind = true :=
      (hin.phase hb).2.2.1.admits
    have hk : (c.forwardSpace true).kind = .lineEnd := by
      rw [hp] at hadmits
      rcases hnot with rfl | rfl <;> simpa [Place.admits] using hadmits
    refine (Cursor.forwardSpace_stops true c).resolve_left fun hstop => ?_
    rw [hk] at hstop
    simp [Kind.isSkipped] at hstop
  have hstring : ∀ q : Place, q ≠ .code → q ≠ .comment → q.isFinal = false := by
    intro q h₁ h₂
    cases q <;> first | rfl | exact absurd rfl h₁ | exact absurd rfl h₂
  cases hp : b.text.placeAt (c.forwardSpace true).start with
  | code =>
    refine ⟨fun _ => Or.inl hp.symm, fun h₁ h₂ => ?_⟩
    rw [hp, hstring _ h₁ h₂] at hfinal
    simp [Place.isFinal] at hfinal
  | comment =>
    have hnil := hin.drop_of_after_nil (hlast _ hp (Or.inl rfl))
    refine ⟨fun _ => Or.inr ⟨rfl, hnil⟩, fun h₁ h₂ => ?_⟩
    rw [hp, hstring _ h₁ h₂] at hfinal
    simp [Place.isFinal] at hfinal
  | string =>
    refine ⟨fun hcode => ?_, fun _ _ => rfl⟩
    rw [hp, hcode] at hfinal
    simp [Place.isFinal] at hfinal
  | escape =>
    have hnil := hin.drop_of_after_nil (hlast _ hp (Or.inr rfl))
    rw [← List.take_append_drop (c.forwardSpace true).start b.text, hnil, List.append_nil] at hend
    rw [show Place.code.after (b.text.take (c.forwardSpace true).start) = .escape from hp] at hend
    simp [Place.isFinal] at hend

/-- Brackets that come to stand in a string, or behind a backslash of one. -/
theorem piece_split {e o : Text} (he : e ∈ Bracket.closers) (ho : o ∈ Bracket.openers) {p : Place}
    (hp : p ≠ .code) (hcomment : p ≠ .comment) : Piece p (e ++ ' ' :: o) [] .string := by
  obtain ⟨hne, hquiet⟩ := quiet_of_delimiter (List.mem_append_right _ he)
  have hfirst := Place.piece_quiet hp hne hquiet
  obtain ⟨hne', hquiet'⟩ := quiet_of_delimiter (List.mem_append_left _ ho)
  have hlast := Place.piece_quiet (by simp : Place.string ≠ .code) hne' hquiet'
  have hq : (if p = .escape then Place.string else p) = .string := by
    cases p <;> simp_all
  have hspace : Piece .string [' '] [] .string := ⟨rfl, rfl⟩
  rw [hq] at hfirst
  exact hfirst.append (hspace.append hlast)

theorem Nested.split_iff (hb : b.Nested) {c o e : Cursor} (hc : c.In b)
    (hplace : b.text.placeAt c.start ≠ .comment) (ho : c.backwardList? = some o)
    (he : o.forwardList? = some e) :
    Text.Balanced (b.text.take c.start ++ (e.raw ++ ' ' :: o.prevToken.raw) ++
        b.text.drop (c.forwardSpace true).start) ↔
      (b.text.placeAt c.start = .code → (b.text.listsAt c.start).head? = Bracket.ofText? e.raw ∧
        (b.text.listsAt c.start).head? = Bracket.ofText? o.prevToken.raw) := by
  have hbal := hb.balanced
  have hoin := hc.backwardList? ho
  have hein := hoin.forwardList? he
  obtain ⟨x, hx, hopener, -⟩ := hoin.opener hb.phase (Cursor.backwardList?_eq_some ho).2
  obtain ⟨y, hy, hcloser, -⟩ := hein.closing hb.phase (Cursor.forwardList?_eq_some he).2
  obtain ⟨hle, hnone⟩ := hc.walk_forwardSpace hb true
  have hlists := hbal.lists_of_fences_nil hle hnone
  obtain ⟨hcode, hstring⟩ := place_forwardSpace hb.phase hbal.2 hc
  have hspace : Piece .code [' '] [] .code := ⟨rfl, rfl⟩
  by_cases hp : b.text.placeAt c.start = .code
  · have hmid : Piece (b.text.placeAt c.start) (e.raw ++ ' ' :: o.prevToken.raw)
        [.closes y, .opens x] .code := by
      rw [hp]
      exact (piece_closer hcloser hy).append (hspace.append (piece_opener hopener hx))
    rw [hbal.splice_iff hmid (hcode hp), hlists, hx, hy, nest_closes_eq_some]
    simp only [hp, forall_const]
    constructor
    · rintro ⟨rest, hrest, hopens⟩
      have heq : x :: rest = b.text.listsAt c.start := Option.some.inj hopens
      rw [hrest] at heq ⊢
      obtain ⟨rfl, -⟩ := List.cons.inj heq
      exact ⟨rfl, rfl⟩
    · rintro ⟨h₁, h₂⟩
      cases hl : b.text.listsAt c.start with
      | nil => simp [hl] at h₁
      | cons z rest =>
        rw [hl] at h₁ h₂
        obtain rfl := Option.some.inj h₁
        obtain rfl := Option.some.inj h₂
        exact ⟨rest, rfl, rfl⟩
  · have hmid := piece_split hcloser hopener hp hplace
    rw [hbal.splice_iff hmid (Or.inl (hstring hp hplace).symm), hlists]
    simp [hp]

/-! ## Joining -/

/-- In front of the closing quote of the string before a cursor. -/
theorem Nested.string_behind (hb : b.Nested) {c : Cursor} (hc : c.In b)
    (hk : c.prevKind = .string ∨ c.prevKind = .stringEnd) :
    b.text.placeAt (c.start - 1) = .string ∧ b.text.listsAt (c.start - 1) = b.text.listsAt c.start := by
  have hne : c.prevKind ≠ .lineEnd := by rcases hk with hk | hk <;> simp [hk]
  obtain ⟨hin, hkind, -, hstop, -⟩ := hc.behind hne
  rw [← hkind] at hk hne
  have hsuits := (hin.at hb).suits
  have hsum := (hin.stop_eq hne).symm.trans hstop
  have hmax := hc.start_le
  have hpos := hin.raw_length_pos
  obtain ⟨hplace, -⟩ := hin.part (show c.prev.raw.length - 1 ≤ _ by omega) (by omega)
  obtain ⟨-, hwhole⟩ := hin.part (Nat.le_refl _) (by omega)
  have hprev : c.prev.start + (c.prev.raw.length - 1) = c.start - 1 := by omega
  rw [hprev, hsuits.string_last hk (List.length_pos_iff.1 hpos)] at hplace
  rw [hsum, List.take_length, hsuits.fences,
    Cursor.fences_other (by rcases hk with hk | hk <;> simp [hk])
      (by rcases hk with hk | hk <;> simp [hk]),
    Text.fencesBetween_append b.text (show c.prev.start ≤ c.start - 1 by omega)
      (Nat.sub_le _ _)] at hwhole
  have hnone := (List.append_eq_nil_iff.1 hwhole).2
  exact ⟨hplace, (hb.balanced.lists_of_fences_nil (Nat.sub_le _ _) hnone).symm⟩

/-- Behind the opening quote of the string at a cursor. -/
theorem Nested.string_ahead (hb : b.Nested) {c : Cursor} (hc : c.In b)
    (hk : c.kind = .string ∨ c.kind = .stringStart) :
    b.text.placeAt (c.start + 1) = .string ∧ b.text.listsAt (c.start + 1) = b.text.listsAt c.start := by
  have hne : c.kind ≠ .lineEnd := by rcases hk with hk | hk <;> simp [hk]
  have hmax : c.start + c.raw.length ≤ b.maxOffset := by
    rw [← hc.stop_eq hne]
    exact hc.stop_le
  have hpos := hc.raw_length_pos
  obtain ⟨hplace, hfences⟩ := hc.part (show 1 ≤ c.raw.length from hpos) (by omega)
  obtain ⟨hafter, hnone⟩ := (hc.at hb).suits.string_first hk
  exact ⟨hplace.trans hafter,
    hb.balanced.lists_of_fences_nil (Nat.le_succ _) (hfences.trans hnone)⟩

theorem Nested.join (hb : b.Nested) {c : Cursor} (hc : c.In b) {j : Document.Joint}
    (hj : Document.joint? c.prevToken (c.forwardSpace true).here.token c.start
      (c.forwardSpace true).start = some j) :
    j.start ≤ j.stop ∧ '\n' ∉ j.text ∧
      Text.Balanced (b.text.take j.start ++ j.text ++ b.text.drop j.stop) := by
  have hbal := hb.balanced
  have he := hc.forwardSpace true
  obtain ⟨hle, hnone⟩ := hc.walk_forwardSpace hb true
  have hlists := hbal.lists_of_fences_nil hle hnone
  generalize c.forwardSpace true = e at he hle hlists hj
  have hkind : e.here.token.kind = e.kind := rfl
  have hstrings : c.prevToken.kind = .string ∨ c.prevToken.kind = .stringEnd →
      e.kind = .string ∨ e.kind = .stringStart →
      Text.Balanced (b.text.take (c.start - 1) ++ [] ++ b.text.drop (e.start + 1)) := by
    intro hl hr
    rw [c.kind_prevToken] at hl
    obtain ⟨hplace, hsame⟩ := hb.string_behind hc hl
    obtain ⟨hplace', hsame'⟩ := hb.string_ahead he hr
    have hmid : Piece (b.text.placeAt (c.start - 1)) [] [] .string := by
      rw [hplace]
      exact .nil _
    rw [hbal.splice_iff hmid (Or.inl hplace'.symm), hsame, hsame', hlists]
    rfl
  have hbrackets : c.prevToken.kind = .closing → e.kind = .opening →
      Bracket.paired c.prevToken.raw e.raw = true →
      Text.Balanced (b.text.take (c.start - c.prevToken.length) ++ [' '] ++
        b.text.drop (e.start + e.here.token.length)) := by
    intro hl hr hpaired
    rw [c.kind_prevToken] at hl
    obtain ⟨hin, hprev, hraw, hstop, hstart⟩ := hc.behind (by rw [hl]; simp)
    obtain ⟨x, hx, -, hfence⟩ := hin.closing hb.phase (hprev.trans hl)
    obtain ⟨y, hy, -, hfence'⟩ := he.opening hb.phase hr
    rw [hraw] at hx
    rw [hstop, hstart] at hfence
    rw [he.stop_eq (by simp [hr])] at hfence'
    obtain rfl : x = y := by simpa [Bracket.paired, hx, hy] using hpaired
    have hspace : Piece (b.text.placeAt (c.start - c.prevToken.length)) [' '] [] .code := by
      rw [hfence.start]
      exact ⟨rfl, rfl⟩
    have hlen : e.start + e.here.token.length = e.start + e.raw.length := rfl
    rw [hlen, hbal.splice_iff hspace (Or.inl hfence'.stop.symm), hbal.lists_closing hfence,
      hbal.lists_opening hfence', hlists]
    rfl
  rcases Document.joint?_cases hj with ⟨hl, hr, rfl⟩ | ⟨hl, hr, hpaired, rfl⟩
  · exact ⟨by show c.start - 1 ≤ e.start + 1; omega, by simp, hstrings hl hr⟩
  · refine ⟨?_, by simp, hbrackets hl hr hpaired⟩
    show c.start - c.prevToken.length ≤ e.start + e.here.token.length
    omega

end Buffer

namespace Document

variable {d : Document}

theorem balanced_wrap_iff (hb : d.buffer.Nested) (hf : d.Fits) (hs : d.selection.isEmpty = true)
    {o : Text} {k : Bracket} (ho : o ∈ Bracket.openers) (hk : Bracket.ofText? o = some k) :
    (d.wrap o k.closer).1.buffer.text.Balanced ↔ d.buffer.KeepsWrap d.caret k := by
  obtain ⟨hlower, hupper⟩ := Selection.eq_caret_of_isEmpty hs
  have hcloser : k.closer ∈ Bracket.closers := by cases k <;> decide
  have hi : d.caret ≤ d.buffer.maxOffset := hf.2
  have hcaret : d.selection.caret = d.caret := rfl
  unfold Buffer.KeepsWrap
  simp only [wrap, hlower, hupper, hs, ↓reduceIte, hcaret]
  cases hw : (d.buffer.cursorAt d.caret).withinString with
  | true =>
    simp only [↓reduceIte, true_or, iff_true]
    exact hb.balanced
  | false =>
    obtain ⟨hij, hends, l, -, hl⟩ := hb.caret_forwardSexp hi true
    have hj := ((d.buffer.in_cursorAt d.caret).forwardSexp true).start_le
    simp only [Bool.false_eq_true, ↓reduceIte, false_or, Outcome.done]
    rw [buffer_perform, Buffer.text_flush, buffer_setCaret, buffer_splice, buffer_splice,
      buffer_begun, Buffer.text_replace_replace (Nat.le_refl _) hij (Nat.le_refl _) hj
        (Text.newline_not_mem_delimiter (List.mem_append_left _ ho))
        (Text.newline_not_mem_delimiter (List.mem_append_right _ hcloser))]
    exact hb.wrap_iff hi hw hij hj (hends.imp id And.left) hl ho hk hcloser
      (Bracket.ofText?_closer k)

theorem balanced_split_iff (hb : d.buffer.Nested) :
    d.split.buffer.text.Balanced ↔ d.buffer.KeepsSplit d.caret := by
  have hcursor : d.buffer.cursorAt d.caret = d.cursor := rfl
  have hin : d.cursor.In d.buffer := d.buffer.in_cursorAt d.caret
  simp only [split, Buffer.KeepsSplit, hcursor]
  by_cases hw : d.cursor.withinString = true
  · rw [if_pos hw, if_pos hw, splitString, buffer_perform, Buffer.text_flush, buffer_setCaret,
      buffer_splice, buffer_begun, Buffer.text_replace_of_le (Nat.le_refl _) (by decide)]
    exact hb.splitString_iff _
  · rw [if_neg hw, if_neg hw]
    have hc := hin.backwardSpace true
    have hplace := (hin.place_backwardSpace hb true).2 rfl
    generalize d.cursor.backwardSpace true = c at hc hplace ⊢
    cases ho : c.backwardList? with
    | none => exact iff_true_intro hb.balanced
    | some o =>
      cases he : o.forwardList? with
      | none =>
        simp only [he]
        exact iff_true_intro hb.balanced
      | some e =>
        have hoin := hc.backwardList? ho
        have hraw : '\n' ∉ e.raw ++ ' ' :: o.prevToken.raw := by
          obtain ⟨-, -, hopener, -⟩ := hoin.opener hb.phase (Cursor.backwardList?_eq_some ho).2
          obtain ⟨-, -, hcloser, -⟩ :=
            (hoin.forwardList? he).closing hb.phase (Cursor.forwardList?_eq_some he).2
          have h₁ := Text.newline_not_mem_delimiter (List.mem_append_left _ hopener)
          have h₂ := Text.newline_not_mem_delimiter (List.mem_append_right _ hcloser)
          simp [h₁, h₂]
        simp only [he]
        rw [buffer_perform, Buffer.text_flush, buffer_setCaret, buffer_splice, buffer_begun,
          Buffer.text_replace_of_le (hc.walk_forwardSpace hb true).1 hraw]
        exact hb.split_iff hc hplace ho he

theorem balanced_join (hb : d.buffer.Nested) : d.join.1.buffer.text.Balanced := by
  have hc : (d.cursor.backwardSpace true).In d.buffer :=
    (d.buffer.in_cursorAt d.caret).backwardSpace true
  simp only [join]
  generalize d.cursor.backwardSpace true = c at hc
  split
  · exact hb.balanced
  · split
    · exact hb.balanced
    · rename_i j hj
      obtain ⟨hle, hn, hbal⟩ := hb.join hc hj
      rw [Outcome.done, buffer_perform, Buffer.text_flush, buffer_setCaret, buffer_splice,
        buffer_begun, Buffer.text_replace_of_le hle hn]
      exact hbal

end Document
end StructEdit
