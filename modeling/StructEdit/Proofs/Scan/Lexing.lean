import StructEdit.Proofs.Balance.Balanced
import StructEdit.Proofs.Pattern.Behind

/-!
# The tokens of a whole text

The lines of a buffer are scanned one by one, and each goes on in the mode that the one before it
ends in. Read as one text with its line breaks, a settled buffer has the tokens that `Mode.lex` finds
from the start of the text on, so they depend on nothing but the text.

Tokens that have been read in front of one text stay as they are in front of another, unless one that
starts among them goes on into the new text. This is all that a change further on can do to them.
-/
namespace StructEdit

/-- The kind and the characters of a token. -/
abbrev Lexeme := Kind × Text

def Placed.lexeme (q : Placed) : Lexeme := (q.kind, q.token.raw)

/-- The characters of the tokens, one after the other. -/
def spell (ts : List Lexeme) : Text := ts.flatMap Prod.snd

@[simp] theorem spell_nil : spell [] = [] := rfl

@[simp] theorem spell_cons (x : Lexeme) (ts : List Lexeme) : spell (x :: ts) = x.2 ++ spell ts := rfl

@[simp] theorem spell_append (ts us : List Lexeme) : spell (ts ++ us) = spell ts ++ spell us :=
  List.flatMap_append

theorem spell_map_lexeme (ps : List Placed) : spell (ps.map Placed.lexeme) = rawText ps := by
  induction ps with
  | nil => rfl
  | cons q ps ih => rw [List.map_cons, spell_cons, ih, rawText_cons]; rfl

namespace Text

/-- What comes before the first line break. -/
def firstLine (s : Text) : Text := s.takeWhile (· != '\n')

variable {s t : Text}

theorem firstLine_append (h : '\n' ∉ s) (t : Text) : (s ++ t).firstLine = s ++ t.firstLine := by
  refine List.takeWhile_append_of_pos fun c hc => ?_
  rw [bne_iff_ne]
  rintro rfl
  exact h hc

theorem firstLine_of_not_mem (h : '\n' ∉ s) : s.firstLine = s := by
  have := firstLine_append h []
  rwa [List.append_nil, show firstLine [] = [] from rfl, List.append_nil] at this

theorem firstLine_append_of_mem (h : '\n' ∈ s) (t : Text) : (s ++ t).firstLine = s.firstLine := by
  induction s with
  | nil => simp at h
  | cons c s ih =>
    by_cases hc : c = '\n'
    · subst hc
      rfl
    · have hs : '\n' ∈ s := (List.mem_cons.1 h).resolve_left (Ne.symm hc)
      have hpos : (c != '\n') = true := bne_iff_ne.2 hc
      show List.takeWhile _ (c :: (s ++ t)) = _
      rw [List.takeWhile_cons, if_pos hpos, firstLine, List.takeWhile_cons, if_pos hpos]
      exact congrArg (c :: ·) (ih hs)

theorem not_mem_firstLine (s : Text) : '\n' ∉ s.firstLine := by
  intro h
  have hall : s.firstLine.all (· != '\n') = true := List.all_takeWhile
  simpa using List.all_eq_true.1 hall _ h

theorem firstLine_prefix (s : Text) : s.firstLine <+: s := List.takeWhile_prefix _

end Text

namespace Mode

variable {m : Mode} {s t u : Text} {k : Kind} {n : Nat}

/-- The kind and length of the token at the start of a text. -/
def token? (m : Mode) : Text → Option (Kind × Nat)
  | [] => none
  | c :: s => if c = '\n' then some (.lineEnd, 1) else m.read? (Text.firstLine (c :: s))

theorem token?_newline (m : Mode) (s : Text) : m.token? ('\n' :: s) = some (.lineEnd, 1) := rfl

theorem token?_eq_read? {c : Char} (hc : c ≠ '\n') (s : Text) :
    m.token? (c :: s) = m.read? (Text.firstLine (c :: s)) := if_neg hc

theorem token?_fits (h : m.token? s = some (k, n)) : 0 < n ∧ n ≤ s.length := by
  cases s with
  | nil => simp [token?] at h
  | cons c s =>
    rw [token?] at h
    split at h
    · obtain ⟨-, rfl⟩ := Prod.mk.inj (Option.some.inj h)
      exact ⟨Nat.one_pos, by simp⟩
    · obtain ⟨hpos, hle⟩ := read?_fits h
      exact ⟨hpos, Nat.le_trans hle (Text.firstLine_prefix (c :: s)).length_le⟩

theorem token?_eq_none (h : m.token? s = none) : s = [] := by
  cases s with
  | nil => rfl
  | cons c s =>
    rw [token?] at h
    split at h
    · simp at h
    · rename_i hc
      have hpos : (c != '\n') = true := bne_iff_ne.2 hc
      have hline := read?_eq_none h
      rw [Text.firstLine, List.takeWhile_cons, if_pos hpos] at hline
      simp at hline

/-- A text makes a difference to the token in front of it only when the token goes on into it. -/
theorem token?_append (m : Mode) (u t : Text) :
    m.token? (u ++ t) = m.token? u ∨ ∃ k n, m.token? (u ++ t) = some (k, n) ∧ u.length < n := by
  cases u with
  | nil =>
    cases ht : m.token? t with
    | none => exact Or.inl ht
    | some r => exact Or.inr ⟨r.1, r.2, ht, (token?_fits ht).1⟩
  | cons c u =>
    by_cases hc : c = '\n'
    · subst hc
      exact Or.inl rfl
    · rw [List.cons_append, token?_eq_read? hc, token?_eq_read? hc, ← List.cons_append]
      by_cases hu : '\n' ∈ c :: u
      · exact Or.inl (by rw [Text.firstLine_append_of_mem hu])
      · rw [Text.firstLine_append hu, Text.firstLine_of_not_mem hu]
        exact m.read?_append (c :: u) t.firstLine

/-- A token is the line break, or it lies on its line. -/
theorem token?_cases {raw : Text} (h : m.token? (raw ++ t) = some (k, raw.length)) :
    k = .lineEnd ∧ raw = ['\n'] ∨
      raw ≠ [] ∧ '\n' ∉ raw ∧ m.read? (raw ++ t.firstLine) = some (k, raw.length) := by
  obtain ⟨c, raw, rfl⟩ := List.exists_cons_of_ne_nil (List.length_pos_iff.1 (token?_fits h).1)
  by_cases hc : c = '\n'
  · subst hc
    obtain ⟨rfl, hlen⟩ := Prod.mk.inj (Option.some.inj h)
    exact Or.inl ⟨rfl, by rw [List.length_eq_zero_iff.1 (by simpa using hlen.symm : raw.length = 0)]⟩
  · rw [List.cons_append, token?_eq_read? hc, ← List.cons_append] at h
    have hbreak : '\n' ∉ c :: raw := by
      intro hmem
      rw [Text.firstLine_append_of_mem hmem] at h
      have hfirst := Text.firstLine_prefix (c :: raw)
      have heq := hfirst.eq_of_length (Nat.le_antisymm hfirst.length_le (read?_fits h).2)
      rw [← heq] at hmem
      exact Text.not_mem_firstLine (c :: raw) hmem
    rw [Text.firstLine_append hbreak] at h
    exact Or.inr ⟨by simp, hbreak, h⟩

/-! ## Lexing -/

/-- The tokens of a text that is read from the given mode on. -/
def lex (m : Mode) (s : Text) : List Lexeme :=
  match h : m.token? s with
  | none => []
  | some (k, n) =>
    have : s.length - n < s.length := by
      have := token?_fits h
      omega
    (k, s.take n) :: (m.after k).lex (s.drop n)
termination_by s.length

/-- The mode behind tokens. -/
def along (m : Mode) (ts : List Lexeme) : Mode := ts.foldl (fun m x => m.after x.1) m

@[simp] theorem along_nil (m : Mode) : m.along [] = m := rfl

@[simp] theorem along_cons (m : Mode) (x : Lexeme) (ts : List Lexeme) :
    m.along (x :: ts) = (m.after x.1).along ts := rfl

@[simp] theorem lex_nil (m : Mode) : m.lex [] = [] := by
  unfold lex
  rfl

theorem lex_of_token? (h : m.token? s = some (k, n)) :
    m.lex s = (k, s.take n) :: (m.after k).lex (s.drop n) := by
  rw [lex]
  split
  · rename_i hnone
    rw [h] at hnone
    simp at hnone
  · rename_i hsome
    rw [h] at hsome
    obtain ⟨rfl, rfl⟩ := Prod.mk.inj (Option.some.inj hsome)
    rfl

theorem lex_append (h : m.token? (s ++ t) = some (k, s.length)) :
    m.lex (s ++ t) = (k, s) :: (m.after k).lex t := by
  rw [lex_of_token? h, List.take_left, List.drop_left]

/-- The tokens are read one after the other from the given mode on, in front of the text `t`. -/
def Reads (m : Mode) (t : Text) : List Lexeme → Prop
  | [] => True
  | (k, raw) :: ts => m.token? (raw ++ (spell ts ++ t)) = some (k, raw.length) ∧
      (m.after k).Reads t ts

variable {ts us : List Lexeme}

theorem reads_append : m.Reads t (ts ++ us) ↔ m.Reads (spell us ++ t) ts ∧ (m.along ts).Reads t us := by
  induction ts generalizing m with
  | nil => simp [Reads]
  | cons x ts ih =>
    simp only [List.cons_append, Reads, ih, spell_append, List.append_assoc, along_cons, and_assoc]

theorem Reads.lex (h : m.Reads t ts) : m.lex (spell ts ++ t) = ts ++ (m.along ts).lex t := by
  induction ts generalizing m with
  | nil => rfl
  | cons x ts ih =>
    rw [spell_cons, List.append_assoc, lex_append h.1, ih h.2]
    rfl

theorem reads_lex (m : Mode) (s : Text) : m.Reads [] (m.lex s) ∧ spell (m.lex s) = s := by
  fun_induction Mode.lex m s with
  | case1 m s h =>
    obtain rfl := token?_eq_none h
    exact ⟨trivial, rfl⟩
  | case2 m s k n h hlt ih =>
    obtain ⟨-, hle⟩ := token?_fits h
    obtain ⟨hreads, hspell⟩ := ih
    refine ⟨⟨?_, hreads⟩, ?_⟩
    · rw [hspell, List.append_nil, List.take_append_drop, h, List.length_take, Nat.min_eq_left hle]
    · rw [spell_cons, hspell, List.take_append_drop]

/-- A token of the text starts among the tokens that come first and goes on into the text behind
them. -/
structure Bridges (m : Mode) (ts : List Lexeme) (t : Text) (first covered : List Lexeme) (k : Kind)
    (into rest : Text) : Prop where
  tokens : ts = first ++ covered
  text : t = into ++ rest
  covered_ne_nil : covered ≠ []
  into_ne_nil : into ≠ []
  reads : m.Reads (spell covered ++ t) first
  token : (m.along first).token? (spell covered ++ t) = some (k, (spell covered ++ into).length)

/-- Tokens that are read in front of one text are read in front of another, or one of them goes on
into it. -/
theorem Reads.append_or (h : m.Reads t ts) (t' : Text) :
    m.Reads t' ts ∨ ∃ first covered k into rest, m.Bridges ts t' first covered k into rest := by
  induction ts generalizing m with
  | nil => exact Or.inl trivial
  | cons x ts ih =>
    obtain ⟨k, raw⟩ := x
    obtain ⟨htoken, hrest⟩ := h
    have hbare : m.token? (raw ++ spell ts) = some (k, raw.length) := by
      rw [← List.append_assoc] at htoken
      rcases m.token?_append (raw ++ spell ts) t with heq | ⟨k', n, hn, hlt⟩
      · rw [← heq, htoken]
      · rw [htoken] at hn
        obtain ⟨-, rfl⟩ := Prod.mk.inj (Option.some.inj hn)
        rw [List.length_append] at hlt
        omega
    rcases m.token?_append (raw ++ spell ts) t' with heq | ⟨k', n, hn, hlt⟩
    · have htoken' : m.token? (raw ++ (spell ts ++ t')) = some (k, raw.length) := by
        rw [← List.append_assoc, heq, hbare]
      rcases ih hrest with hreads | ⟨first, covered, k', into, rest, hb⟩
      · exact Or.inl ⟨htoken', hreads⟩
      · refine Or.inr ⟨(k, raw) :: first, covered, k', into, rest, ?_, hb.text, hb.covered_ne_nil,
          hb.into_ne_nil, ⟨?_, hb.reads⟩, hb.token⟩
        · rw [hb.tokens, List.cons_append]
        · rw [hb.tokens, spell_append, List.append_assoc] at htoken'
          exact htoken'
    · obtain ⟨-, hle⟩ := token?_fits hn
      rw [List.length_append] at hle
      refine Or.inr ⟨[], (k, raw) :: ts, k', t'.take (n - (raw ++ spell ts).length),
        t'.drop (n - (raw ++ spell ts).length), rfl, (List.take_append_drop _ _).symm, by simp, ?_,
        trivial, ?_⟩
      · rw [← List.length_pos_iff, List.length_take]
        omega
      · show m.token? (raw ++ spell ts ++ t') = _
        have hlen : (raw ++ spell ts ++ t'.take (n - (raw ++ spell ts).length)).length = n := by
          rw [List.length_append, List.length_take]
          omega
        rw [hn, spell_cons, hlen]

/-! ## Places -/

/-- A reader of characters at the place `p` is where the scanner is, in front of the text `s`. Behind
a comment, and behind a backslash that ends a line of a string, nothing is left of the line. -/
def Agrees (m : Mode) (p : Place) (s : Text) : Prop :=
  p = m.place ∨ s.firstLine = [] ∧ p.pass .lineEnd = m.place

theorem agrees_place (m : Mode) (s : Text) : m.Agrees m.place s := Or.inl rfl

theorem Agrees.mode_eq {w : Mode} (h : m.Agrees w.place s) : m = w := by
  rcases h with h | ⟨-, h⟩
  · cases m <;> cases w <;> first | rfl | cases h
  · cases m <;> cases w <;> first | rfl | cases h

variable {p : Place} {raw : Text}

theorem Agrees.suits (h : m.Agrees p (raw ++ t)) (htoken : m.token? (raw ++ t) = some (k, raw.length)) :
    Suits p k raw ∧ (m.after k).Agrees (p.pass k) t := by
  rcases token?_cases htoken with ⟨rfl, rfl⟩ | ⟨hne, hbreak, hread⟩
  · refine ⟨suits_lineEnd p, Or.inl ?_⟩
    rcases h with rfl | ⟨-, hpass⟩
    · cases m <;> rfl
    · exact hpass
  · obtain rfl : p = m.place := by
      refine h.resolve_right fun hline => hne ?_
      rw [Text.firstLine_append hbreak] at hline
      exact (List.append_eq_nil_iff.1 hline.1).1
    have hline : '\n' ∉ raw ++ t.firstLine := by
      rw [← Text.firstLine_append hbreak]
      exact Text.not_mem_firstLine _
    cases m with
    | code =>
      obtain ⟨hsuits, hcomment⟩ := suits_code hline hread
      refine ⟨hsuits, ?_⟩
      by_cases hk : k = .comment
      · subst hk
        exact Or.inr ⟨hcomment rfl, rfl⟩
      · exact Or.inl (by cases k <;> first | rfl | exact absurd rfl hk)
    | string =>
      obtain ⟨hsuits, hjunk⟩ := suits_string hne hline hread
      refine ⟨hsuits, ?_⟩
      by_cases hk : k = .junk
      · subst hk
        exact Or.inr ⟨hjunk rfl, rfl⟩
      · have hadmits : Place.string.admits k = true := hsuits.admits
        refine Or.inl ?_
        cases k <;> first | rfl | exact absurd rfl hk | simp [Place.admits] at hadmits

theorem Reads.agrees (h : m.Reads t ts) (ha : m.Agrees p (spell ts ++ t)) :
    (m.along ts).Agrees (p.after (spell ts)) t := by
  induction ts generalizing m p with
  | nil => exact ha
  | cons x ts ih =>
    rw [spell_cons, List.append_assoc] at ha
    obtain ⟨hsuits, hrest⟩ := ha.suits h.1
    rw [spell_cons, Place.after_append, hsuits.after]
    exact ih h.2 hrest

/-- Each token suits the place where it is read. -/
theorem Reads.suits {x : Lexeme} (h : m.Reads t (ts ++ x :: us))
    (ha : m.Agrees p (spell (ts ++ x :: us) ++ t)) :
    (m.along ts).Agrees (p.after (spell ts)) (x.2 ++ (spell us ++ t)) ∧
      Suits (p.after (spell ts)) x.1 x.2 := by
  obtain ⟨hfirst, hrest⟩ := reads_append.1 h
  rw [spell_append, List.append_assoc] at ha
  have hagrees := hfirst.agrees ha
  rw [spell_cons, List.append_assoc] at hagrees
  exact ⟨hagrees, (hagrees.suits hrest.1).1⟩

/-- The bridge is a token like any other, and it starts where the tokens that it covers start. -/
theorem Bridges.suits {first covered : List Lexeme} {into rest : Text}
    (h : m.Bridges ts t first covered k into rest) (ha : m.Agrees p (spell ts ++ t)) :
    Suits (p.after (spell first)) k (spell covered ++ into) := by
  rw [h.tokens, spell_append, List.append_assoc] at ha
  have hfirst := h.reads.agrees ha
  have htoken := h.token
  rw [h.text, ← List.append_assoc] at hfirst htoken
  exact (hfirst.suits htoken).1

end Mode

/-! ## Buffers -/

theorem lexeme_placeTokens (row start index : Nat) (ts : List Token) :
    (placeTokens row start index ts).map Placed.lexeme = ts.map fun t => (t.kind, t.raw) := by
  induction ts generalizing index with
  | nil => rfl
  | cons t ts ih => rw [placeTokens, List.map_cons, ih, List.map_cons]; rfl

theorem Scanned.lex {mode last : Mode} {column : Nat} {s : Text} {ts : List Token}
    (h : Scanned mode column s ts last) (hn : '\n' ∉ s) (rest : Text) :
    mode.lex (s ++ '\n' :: rest) = (ts.map fun t => (t.kind, t.raw)) ++ last.lex rest := by
  induction h with
  | nil mode column => exact Mode.lex_append (s := ['\n']) (mode.token?_newline rest)
  | @cons mode last column raw behind kind ts hne hread hscan ih =>
    have hraw : '\n' ∉ raw := fun hm => hn (List.mem_append_left _ hm)
    have hbehind : '\n' ∉ behind := fun hm => hn (List.mem_append_right _ hm)
    have htoken : mode.token? (raw ++ (behind ++ '\n' :: rest)) = some (kind, raw.length) := by
      obtain ⟨c, raw, rfl⟩ := List.exists_cons_of_ne_nil hne
      have hc : c ≠ '\n' := by
        rintro rfl
        simp at hraw
      rw [List.cons_append, Mode.token?_eq_read? hc, ← List.cons_append, ← List.append_assoc,
        Text.firstLine_append hn]
      simpa [Text.firstLine] using hread
    rw [List.append_assoc, Mode.lex_append htoken, ih hbehind]
    rfl

theorem lex_placeLines {mode : Mode} {ls : List Line} (hu : ∀ l ∈ ls, '\n' ∉ l.text)
    (hfirst : ∀ l, ls[0]? = some l → l.start = mode)
    (hnext : ∀ row l m, ls[row]? = some l → ls[row + 1]? = some m → m.start = l.stop)
    (row start : Nat) :
    mode.lex (rawText (placeLines row start ls)) = (placeLines row start ls).map Placed.lexeme := by
  induction ls generalizing mode row start with
  | nil => exact mode.lex_nil
  | cons l ls ih =>
    obtain rfl := hfirst l rfl
    rw [placeLines, rawText_append, l.scannedTokens.rawText, List.append_assoc,
      List.singleton_append, l.scannedTokens.lex (hu l List.mem_cons_self), List.map_append,
      lexeme_placeTokens, ih (fun m hm => hu m (List.mem_cons_of_mem _ hm))
        (fun m hm => hnext 0 l m rfl (by simpa using hm))
        (fun r k m hk hm => hnext (r + 1) k m (by simpa using hk) (by simpa using hm))]

namespace Buffer

variable {b : Buffer} {ts : List Lexeme}

/-- The tokens of a settled buffer are those of its text. -/
theorem lex_text (hs : b.Settled) (hu : b.Unbroken) :
    Mode.code.lex (b.text ++ ['\n']) = b.placed.map Placed.lexeme := by
  rw [← b.rawText_placed]
  exact lex_placeLines hu hs.first hs.next 0 0

theorem reads_placed (hs : b.Settled) (hu : b.Unbroken) :
    Mode.code.Reads [] (b.placed.map Placed.lexeme) := by
  rw [← lex_text hs hu]
  exact (Mode.code.reads_lex _).1

/-- Tokens that can be read one after the other are those of a buffer with this text. -/
theorem lexeme_placed (hs : b.Settled) (hu : b.Unbroken) (h : Mode.code.Reads [] ts)
    (htext : b.text ++ ['\n'] = spell ts) : b.placed.map Placed.lexeme = ts := by
  have hlex := h.lex
  rw [List.append_nil, Mode.lex_nil, List.append_nil] at hlex
  rw [← lex_text hs hu, htext, hlex]

end Buffer
end StructEdit
