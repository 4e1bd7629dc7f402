import StructEdit.Proofs.Balance.Balanced

/-!
# Scanning a line and reading it character by character

A reader who knows no tokens goes through the lines one character at a time and keeps in mind
whether it is in code, in a comment, in a string, or behind a backslash in a string. The
scanner tells it nothing new. The mode that stands on a token is that of a string when the
reader is in a string behind the token, the brackets that the reader meets in code are the
opening and closing tokens in their order, and no bracket in code is hidden in another token.
-/
namespace StructEdit

namespace Place

/-- In a string, behind a backslash or not. -/
def inString : Place → Bool
  | .string | .escape => true
  | .code | .comment => false

/-- The brackets that are read in code, each with its column; the text starts at `column`. -/
def brackets (p : Place) (column : Nat) : Text → List (Nat × Char)
  | [] => []
  | c :: s =>
    if p = .code ∧ c ∈ ['(', ')', '[', ']', '\x7b', '\x7d'] then
      (column, c) :: (p.step c).brackets (column + 1) s
    else (p.step c).brackets (column + 1) s

@[simp] theorem brackets_nil (p : Place) (column : Nat) : p.brackets column [] = [] := rfl

theorem brackets_append (p : Place) (column : Nat) (s t : Text) :
    p.brackets column (s ++ t) =
      p.brackets column s ++ (p.after s).brackets (column + s.length) t := by
  induction s generalizing p column with
  | nil => rfl
  | cons c s ih =>
    simp only [List.cons_append, brackets, ih, after, List.length_cons]
    rw [show column + 1 + s.length = column + (s.length + 1) by omega]
    split <;> rfl

theorem mem_brackets_bounds {p : Place} {column : Nat} {s : Text} {x : Nat × Char}
    (h : x ∈ p.brackets column s) : column ≤ x.1 ∧ x.1 < column + s.length := by
  induction s generalizing p column with
  | nil => simp at h
  | cons c s ih =>
    have hrest : x ∈ (p.step c).brackets (column + 1) s →
        column ≤ x.1 ∧ x.1 < column + (c :: s).length := by
      intro hx
      have := ih hx
      rw [List.length_cons]
      omega
    rw [brackets] at h
    split at h
    · rcases List.mem_cons.1 h with rfl | h
      · exact ⟨Nat.le_refl _, by simp⟩
      · exact hrest h
    · exact hrest h

theorem brackets_eq_nil {p : Place} {s : Text} (h : p.fences s = []) (column : Nat) :
    p.brackets column s = [] := by
  have hbracket : (['(', ')', '[', ']', '\x7b', '\x7d'].all fun c =>
      !(Fence.ofChar? c).toList.isEmpty) = true := by decide
  induction s generalizing p column with
  | nil => rfl
  | cons c s ih =>
    obtain ⟨hfirst, hrest⟩ := List.append_eq_nil_iff.1 h
    rw [brackets, if_neg, ih hrest]
    rintro ⟨hp, hc⟩
    rw [if_pos hp] at hfirst
    have hc' := List.all_eq_true.1 hbracket c hc
    rw [hfirst] at hc'
    cases hc'

/-- The end of a line leads out of a comment, and not out of a string. -/
theorem inString_step_newline (p : Place) : (p.step '\n').inString = p.inString := by
  cases p <;> rfl

end Place

@[simp] theorem Mode.inString_place (m : Mode) : m.place.inString = m.inString := by
  cases m <;> rfl

/-- The bracket of a token with its column: the last character of an opening token, and all of a
closing one. -/
def Token.bracket? (t : Token) : Option (Nat × Char) :=
  match t.kind with
  | .opening => t.raw.getLast?.map fun c => (t.offset + (t.length - 1), c)
  | .closing => t.raw.head?.map fun c => (t.offset, c)
  | _ => none

/-- A token has the bracket that is read in its text. -/
theorem Suits.brackets {p : Place} {k : Kind} {raw : Text} (h : Suits p k raw) (column : Nat)
    (mode : Mode) :
    p.brackets column raw = (Token.bracket? ⟨k, raw, column, mode⟩).toList := by
  have hcode : k = .opening ∨ k = .closing → p = .code := by
    intro hk
    have hadmits := h.admits
    rcases hk with rfl | rfl <;> cases p <;> simp_all [Place.admits]
  by_cases ho : k = .opening
  · obtain rfl := hcode (Or.inl ho)
    have hraw := h.opening ho
    subst ho
    simp only [Bracket.openers, List.mem_cons, List.not_mem_nil, or_false] at hraw
    rcases hraw with rfl | rfl | rfl | rfl | rfl | rfl | rfl <;> rfl
  · by_cases hc : k = .closing
    · obtain rfl := hcode (Or.inr hc)
      have hraw := h.closing hc
      subst hc
      simp only [Bracket.closers, List.mem_cons, List.not_mem_nil, or_false] at hraw
      rcases hraw with rfl | rfl | rfl <;> rfl
    · have hnone : k.fences raw = [] := by
        cases k <;> first | rfl | exact absurd rfl ho | exact absurd rfl hc
      rw [Place.brackets_eq_nil (h.fences.trans hnone) column]
      cases k <;> first | rfl | exact absurd rfl ho | exact absurd rfl hc

/-- What the tokens of a text that starts at a column tell a reader who comes to it at the place `p`.
The text may be the rest of a line, and the last token is its end. -/
structure Tells (p : Place) (column : Nat) (s : Text) (ts : List Token) (last : Mode) : Prop where
  /-- The mode on a token is that of a string when the reader behind the token is in a string. -/
  mode : ∀ t ∈ ts, t.mode.inString = (p.after (s.take (t.offset + t.length - column))).inString
  /-- The mode behind the line is the place of the reader behind its end. -/
  stop : last.place = (p.after s).step '\n'
  /-- The opening and closing tokens are the brackets that the reader meets in code, in their order. -/
  brackets : ts.filterMap Token.bracket? = p.brackets column s
  opening : ∀ t ∈ ts, t.kind = .opening → ∃ w, ∃ c ∈ ['(', '[', '\x7b'], t.raw = w ++ [c]
  closing : ∀ t ∈ ts, t.kind = .closing → ∃ c ∈ [')', ']', '\x7d'], t.raw = [c]
  /-- A bracket that is met in code inside a token is the bracket of this token. -/
  inside : ∀ t ∈ ts, ∀ x ∈ p.brackets column s, t.offset ≤ x.1 → x.1 < t.offset + t.length →
    t.bracket? = some x

theorem Scanned.le_offset {mode last : Mode} {column : Nat} {s : Text} {ts : List Token}
    (h : Scanned mode column s ts last) : ∀ t ∈ ts, column ≤ t.offset := by
  induction h with
  | nil mode column => simp [Token.lineEnd]
  | cons _ _ _ ih =>
    intro t ht
    rcases List.mem_cons.1 ht with rfl | ht
    · exact Nat.le_refl _
    · exact Nat.le_trans (Nat.le_add_right _ _) (ih t ht)

/-- The first token suits the place of the reader, and behind it the reader is where the scanner goes
on, unless only the end of the line is left: a comment or a lone backslash in a string takes all the
rest. -/
theorem Mode.suits_read {mode : Mode} {raw rest : Text} {kind : Kind} (hne : raw ≠ [])
    (hn : '\n' ∉ raw ++ rest) (h : mode.read? (raw ++ rest) = some (kind, raw.length)) :
    Suits mode.place kind raw ∧
      (mode.place.after raw = (mode.after kind).place ∨
        rest = [] ∧ (mode.after kind).place = (mode.place.after raw).step '\n') := by
  cases mode with
  | code =>
    obtain ⟨hsuits, hcomment⟩ := suits_code hn h
    have hafter : Place.code.after raw = Place.code.pass kind := hsuits.after
    refine ⟨hsuits, ?_⟩
    rw [Mode.place, hafter]
    by_cases hk : kind = .comment
    · exact Or.inr ⟨hcomment hk, by rw [hk]; rfl⟩
    · exact Or.inl (by cases kind <;> first | rfl | exact absurd rfl hk)
  | string =>
    obtain ⟨hsuits, hjunk⟩ := suits_string hne hn h
    have hafter : Place.string.after raw = Place.string.pass kind := hsuits.after
    have hadmits : Place.string.admits kind = true := hsuits.admits
    refine ⟨hsuits, ?_⟩
    rw [Mode.place, hafter]
    by_cases hk : kind = .junk
    · exact Or.inr ⟨hjunk hk, by rw [hk]; rfl⟩
    · refine Or.inl ?_
      cases kind <;> first | rfl | exact absurd rfl hk | simp [Place.admits] at hadmits

theorem Suits.opening_raw {p : Place} {k : Kind} {raw : Text} (h : Suits p k raw)
    (hk : k = .opening) : ∃ w, ∃ c ∈ ['(', '[', '\x7b'], raw = w ++ [c] := by
  have hall : (Bracket.openers.all fun o =>
      ['(', '[', '\x7b'].any fun c => o == o.dropLast ++ [c]) = true := by decide
  obtain ⟨c, hc, hraw⟩ := List.any_eq_true.1 (List.all_eq_true.1 hall raw (h.opening hk))
  exact ⟨_, c, hc, eq_of_beq hraw⟩

theorem Suits.closing_raw {p : Place} {k : Kind} {raw : Text} (h : Suits p k raw)
    (hk : k = .closing) : ∃ c ∈ [')', ']', '\x7d'], raw = [c] := by
  have hall : (Bracket.closers.all fun o => [')', ']', '\x7d'].any fun c => o == [c]) = true := by
    decide
  obtain ⟨c, hc, hraw⟩ := List.any_eq_true.1 (List.all_eq_true.1 hall raw (h.closing hk))
  exact ⟨c, hc, eq_of_beq hraw⟩

/-- From a place where the reader and the scanner agree, they agree to the end of the line. -/
theorem Scanned.tells {mode last : Mode} {column : Nat} {s : Text} {ts : List Token}
    (h : Scanned mode column s ts last) (hn : '\n' ∉ s) {p : Place}
    (hp : p = mode.place ∨ s = [] ∧ mode.place = p.step '\n') : Tells p column s ts last := by
  have hplace : p.inString = mode.inString := by
    rcases hp with rfl | ⟨-, hp⟩
    · exact mode.inString_place
    · rw [← mode.inString_place, hp, p.inString_step_newline]
  induction h generalizing p with
  | nil mode column =>
    have hstop : mode.place = p.step '\n' := by
      rcases hp with rfl | ⟨-, hp⟩
      · cases mode <;> rfl
      · exact hp
    refine ⟨?_, hstop, rfl, ?_, ?_, by simp⟩
    · simpa [Token.lineEnd] using hplace.symm
    · simp
    · simp
  | @cons mode last column raw rest kind ts hne hread hscan ih =>
    obtain rfl : p = mode.place := by
      rcases hp with hp | ⟨hnil, -⟩
      · exact hp
      · exact absurd (List.append_eq_nil_iff.1 hnil).1 hne
    obtain ⟨hsuits, hnext⟩ := Mode.suits_read hne hn hread
    have hbehind : (mode.place.after raw).inString = (mode.after kind).inString := by
      rcases hnext with heq | ⟨-, heq⟩
      · rw [heq, Mode.inString_place]
      · rw [← Mode.inString_place, heq, Place.inString_step_newline]
    have hrest := ih (fun hm => hn (List.mem_append_right _ hm))
      hnext hbehind
    have hfirst := hsuits.brackets column (mode.after kind)
    have hsplit := mode.place.brackets_append column raw rest
    refine ⟨?_, ?_, ?_, ?_, ?_, ?_⟩
    · intro t ht
      rcases List.mem_cons.1 ht with rfl | ht
      · simpa [Token.length] using hbehind.symm
      · have hle := hscan.le_offset t ht
        have hraw : raw.take (t.offset + t.length - column) = raw :=
          List.take_of_length_le (by omega)
        rw [hrest.mode t ht, List.take_append, hraw, Place.after_append, Nat.sub_sub]
    · rw [Place.after_append]
      exact hrest.stop
    · rw [hsplit, hfirst, List.filterMap_cons, hrest.brackets]
      cases Token.bracket? ⟨kind, raw, column, mode.after kind⟩ <;> rfl
    · intro t ht hk
      rcases List.mem_cons.1 ht with rfl | ht
      · exact hsuits.opening_raw hk
      · exact hrest.opening t ht hk
    · intro t ht hk
      rcases List.mem_cons.1 ht with rfl | ht
      · exact hsuits.closing_raw hk
      · exact hrest.closing t ht hk
    · intro t ht x hx hlow hhigh
      rw [hsplit, List.mem_append] at hx
      rcases List.mem_cons.1 ht with rfl | ht
      · rcases hx with hx | hx
        · rwa [hfirst, Option.mem_toList] at hx
        · have := Place.mem_brackets_bounds hx
          simp only [Token.length] at hhigh
          omega
      · rcases hx with hx | hx
        · have := Place.mem_brackets_bounds hx
          have := hscan.le_offset t ht
          omega
        · exact hrest.inside t ht x hx hlow hhigh

theorem tells_scanLine (mode : Mode) {line : Text} (h : '\n' ∉ line) :
    Tells mode.place 0 line (scanLine line mode).1 (scanLine line mode).2 :=
  (scanned_scanLine line mode).tells h (Or.inl rfl)

/-- Lines without breaks are scanned as a reader reads them who goes through them one character at a
time, with a break behind each line. -/
theorem scanLines_tells (mode : Mode) {ls : List Text} (h : ∀ l ∈ ls, '\n' ∉ l) {row : Nat}
    {line : Text} (hline : ls[row]? = some line) :
    ∃ ts last, (scanLines mode ls)[row]? = some (ts, last) ∧
      Tells (mode.place.after ((ls.take row).flatMap (· ++ ['\n']))) 0 line ts last := by
  induction ls generalizing mode row with
  | nil => simp at hline
  | cons l ls ih =>
    have hl := tells_scanLine mode (h l List.mem_cons_self)
    cases row with
    | zero =>
      obtain rfl : l = line := by simpa using hline
      exact ⟨_, _, rfl, hl⟩
    | succ row =>
      obtain ⟨ts, last, hget, htells⟩ := ih (scanLine l mode).2
        (fun m hm => h m (List.mem_cons_of_mem _ hm)) (by simpa using hline)
      refine ⟨ts, last, by simpa [scanLines] using hget, ?_⟩
      rw [hl.stop] at htells
      simpa [Place.after] using htells

/-- In the second line of a string that ends behind an escaped quote, only the last bracket is met in
code. -/
theorem scanLines_tells_escape :
    ∃ ts last, (scanLines .code [['(', '"', '\\'], ['\\', '"', '(', '"', ')', ';', '(']])[1]? =
      some (ts, last) ∧ ts.filterMap Token.bracket? = [(4, ')')] := by
  have hlines : ∀ l ∈ [['(', '"', '\\'], ['\\', '"', '(', '"', ')', ';', '(']], '\n' ∉ l := by
    decide
  have hline : [['(', '"', '\\'], ['\\', '"', '(', '"', ')', ';', '(']][1]? =
      some ['\\', '"', '(', '"', ')', ';', '('] := rfl
  obtain ⟨ts, last, hget, htells⟩ := scanLines_tells .code hlines hline
  exact ⟨ts, last, hget, htells.brackets⟩

end StructEdit
