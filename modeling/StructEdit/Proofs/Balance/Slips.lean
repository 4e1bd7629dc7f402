import StructEdit.Command
import StructEdit.Proofs.Balance.Reading

/-!
# Typing and deleting next to quotes

Four commands keep strings closed by looking at the characters next to the caret, while the
scanner reads a line from its start. They part where a backslash is concerned: in code it
escapes nothing, and in a string it may be escaped itself. A slip is an edit behind which the
reader goes on from another place than before. Where no slip happens, a closed text stays closed,
and where one does, it is closed exactly when the reader comes out of it well.
-/
namespace StructEdit

/-- The commands that type or delete at the caret. -/
def Command.AtCaret : Command → Prop
  | .backspacePair | .deletePairForward | .quote | .split => True
  | _ => False

/-- An edit of a command between the text in front of the caret and the text behind it that takes a
character for escaped when it is not, or the other way round. The last place is where the
reader comes to at the end of the new text. -/
inductive Slip : Command → Text → Text → Place → Prop
  /-- In code a backslash is deleted together with the quote behind it. -/
  | backspaceMark {u v : Text} : Place.code.after u = .code →
      Slip .backspacePair (u ++ ['\\', '"']) v (Place.code.after v)
  | backspaceMarkAround {u v : Text} : Place.code.after u = .code → u.getLast? ≠ some '\\' →
      Slip .backspacePair (u ++ ['\\']) ('"' :: v) (Place.code.after v)
  | deleteMark {u v : Text} : Place.code.after u = .code →
      Slip .deletePairForward u ('\\' :: '"' :: v) (Place.code.after v)
  | deleteMarkAround {u v : Text} : Place.code.after u = .code → v.head? ≠ some '"' →
      Slip .deletePairForward (u ++ ['\\']) ('"' :: v) (Place.code.after v)
  /-- A backslash that is escaped itself is deleted as if it escaped the next character. -/
  | backspaceEscaped {u v : Text} {c : Char} : Place.code.after u = .escape → c ≠ '\\' →
      Slip .backspacePair (u ++ ['\\', c]) v (Place.escape.after v)
  /-- An escaped character is deleted without its backslash, alone or as half of a pair. -/
  | deleteEscaped {u v : Text} {c : Char} : Place.code.after u = .escape →
      isDelimiter [c] = false → isEmptyPair (c :: v.take 1) = false →
      Slip .deletePairForward u (c :: v) (Place.escape.after v)
  | deleteEscapedPair {u v : Text} {c d : Char} : Place.code.after u = .escape →
      isEmptyPair [c, d] = true → Slip .deletePairForward u (c :: d :: v) (Place.escape.after v)
  | deleteEscapedAround {u v : Text} {c d : Char} : Place.code.after u = .escape →
      isEmptyPair [c, d] = true → isEmptyPair (d :: v.take 1) = false →
      Slip .deletePairForward (u ++ [c]) (d :: v) (Place.escape.after v)
  /-- In a string a backslash is deleted without the character that it escapes. -/
  | backspaceEscape {u v : Text} : Place.code.after u = .string → u.getLast? ≠ some '\\' →
      v.head? ≠ some '"' → Slip .backspacePair (u ++ ['\\']) v (Place.string.after v)
  | deleteEscape {u v : Text} : Place.code.after u = .string → v.head? ≠ some '"' →
      Slip .deletePairForward u ('\\' :: v) (Place.string.after v)
  /-- Quotes are put between a backslash and the character that it escapes. -/
  | quoteEscaped {u v : Text} : Place.code.after u = .escape →
      Slip .quote u v (Place.code.after v)
  | splitEscaped {u v : Text} : Place.code.after u = .escape → v.head? ≠ some '"' →
      v.head? ≠ some '\n' → Slip .split u v (Place.code.after v)

/-! ## Deleting in a text -/

namespace Text

/-- What deleting backwards leaves of the characters in front of the caret, the nearest one first,
and of the text behind it. -/
def backspaced (u v : Text) : Text :=
  if u.take 3 = ['"', '"', '\\'] then u.reverse ++ v
  else if (u.drop 1).take 1 = ['\\'] then (u.drop 2).reverse ++ v
  else if isEmptyPair (u.take 1 ++ v.take 1) then (u.drop 1).reverse ++ v.drop 1
  else if isDelimiter (u.take 1) then u.reverse ++ v
  else (u.drop 1).reverse ++ v

/-- What deleting forwards leaves. -/
def deletedAhead (u v : Text) : Text :=
  if isEmptyPair (v.take 2) then u.reverse ++ v.drop 2
  else if isEmptyPair (u.take 1 ++ v.take 1) then (u.drop 1).reverse ++ v.drop 1
  else if isDelimiter (v.take 1) then u.reverse ++ v
  else u.reverse ++ v.drop 1

/-- No comment starts in the text. -/
def Bare (s : Text) : Prop := ∀ front back, s = front ++ back → Place.code.after front ≠ .comment

variable {u v : Text} {c d : Char} {e : Place}

theorem Bare.append_left (h : Bare (u ++ v)) : Bare u := fun front back hs =>
  h front (back ++ v) (by rw [hs, List.append_assoc])

/-- In bare code only a quote leads out of it. -/
theorem Bare.step_code (h : Bare (u ++ [c])) (hu : Place.code.after u = .code) (hc : c ≠ '"') :
    Place.code.after (u ++ [c]) = .code := by
  have hne := h (u ++ [c]) [] (List.append_nil _).symm
  simp only [Place.after_append, hu, Place.after, Place.step, if_neg hc] at hne ⊢
  split at hne
  · exact absurd rfl hne
  · rename_i hsemi
    rw [if_neg hsemi]

theorem isEmptyPair_iff {s : Text} : isEmptyPair s = true ↔
    s ∈ [['(', ')'], ['[', ']'], ['\x7b', '\x7d'], ['"', '"'], ['\\', '"']] := by
  constructor
  · unfold isEmptyPair
    split <;> simp
  · revert s
    decide

theorem isEmptyPair_of_length {s : Text} (h : s.length ≠ 2) : isEmptyPair s = false := by
  refine Bool.eq_false_iff.2 fun hpair => h ?_
  have hmem := isEmptyPair_iff.1 hpair
  simp only [List.mem_cons, List.not_mem_nil, or_false] at hmem
  rcases hmem with rfl | rfl | rfl | rfl | rfl <;> rfl

theorem mem_of_isEmptyPair (h : isEmptyPair [c, d] = true) :
    (c, d) ∈ [('(', ')'), ('[', ']'), ('\x7b', '\x7d'), ('"', '"'), ('\\', '"')] := by
  simpa [isEmptyPair_iff] using h

/-- A quote or a backslash is the first of a pair in front of a quote. -/
theorem isEmptyPair_mark (hc : c = '"' ∨ c = '\\') (v : Text) :
    isEmptyPair (c :: v.take 1) = true ↔ v.head? = some '"' := by
  cases v with
  | nil => simp [isEmptyPair_iff]
  | cons a v => rcases hc with rfl | rfl <;> simp [isEmptyPair_iff]

/-- The second character of a pair is not deleted alone. -/
theorem isDelimiter_of_isEmptyPair (h : isEmptyPair [c, d] = true) : isDelimiter [d] = true := by
  have hmem := mem_of_isEmptyPair h
  simp only [List.mem_cons, Prod.mk.injEq, List.not_mem_nil, or_false] at hmem
  rcases hmem with ⟨-, rfl⟩ | ⟨-, rfl⟩ | ⟨-, rfl⟩ | ⟨-, rfl⟩ | ⟨-, rfl⟩ <;> rfl

theorem not_isEmptyPair_of_not_isDelimiter (h : isDelimiter [d] = false) (u : Text) :
    isEmptyPair (u.take 1 ++ [d]) = false := by
  cases u with
  | nil => exact isEmptyPair_of_length (by simp)
  | cons a u =>
    refine Bool.eq_false_iff.2 fun hpair => ?_
    cases h.symm.trans (isDelimiter_of_isEmptyPair hpair)

theorem not_isEmptyPair_of_head (hv : v.head? ≠ some '"') :
    isEmptyPair ('"' :: v.take 1) = false ∧ isEmptyPair ('\\' :: v.take 1) = false :=
  ⟨Bool.eq_false_iff.2 fun h => hv ((isEmptyPair_mark (Or.inl rfl) v).1 h),
    Bool.eq_false_iff.2 fun h => hv ((isEmptyPair_mark (Or.inr rfl) v).1 h)⟩

/-- A lone quote is stepped over, and a lone backslash deleted. -/
theorem isDelimiter_mark : isDelimiter ['"'] = true ∧ isDelimiter ['\\'] = false := ⟨rfl, rfl⟩

theorem take_one_eq_iff : u.take 1 = [c] ↔ u.head? = some c := by
  cases u <;> simp

theorem after_backspaced_of_slip (h : Slip .backspacePair u v e) :
    Place.code.after (backspaced u.reverse v) = e := by
  cases h with
  | backspaceMark hu => simp [backspaced, hu]
  | backspaceMarkAround hu hlast =>
    have hpair : isEmptyPair ['\\', '"'] = true := rfl
    simp [backspaced, hu, take_one_eq_iff, hlast, hpair]
  | backspaceEscaped hu hc => simp [backspaced, hu]
  | backspaceEscape hu hlast hhead =>
    simp [backspaced, hu, take_one_eq_iff, hlast, (not_isEmptyPair_of_head hhead).2,
      isDelimiter_mark]

theorem after_deletedAhead_of_slip (h : Slip .deletePairForward u v e) :
    Place.code.after (deletedAhead u.reverse v) = e := by
  have hmark : isEmptyPair ['\\', '"'] = true := rfl
  cases h with
  | deleteMark hu => simp [deletedAhead, hu, hmark]
  | deleteMarkAround hu hhead =>
    simp [deletedAhead, hu, (not_isEmptyPair_of_head hhead).1, hmark]
  | deleteEscaped hu hc hpair =>
    simp [deletedAhead, hu, hc, hpair, not_isEmptyPair_of_not_isDelimiter hc]
  | deleteEscapedPair hu hpair => simp [deletedAhead, hu, hpair]
  | deleteEscapedAround hu hpair hnot => simp [deletedAhead, hu, hpair, hnot]
  | deleteEscape hu hhead =>
    simp [deletedAhead, hu, isDelimiter_mark, (not_isEmptyPair_of_head hhead).2,
      not_isEmptyPair_of_not_isDelimiter isDelimiter_mark.2]

/-- The reader is behind an escaping backslash only where a backslash comes last. -/
theorem getLast?_of_escape (hu : Place.code.after u = .escape) : u.getLast? = some '\\' := by
  rcases List.eq_nil_or_concat u with rfl | ⟨w, a, rfl⟩
  · cases hu
  · rw [List.concat_eq_append, Place.after_append] at hu
    have hstep : ∀ q : Place, q.step a = .escape → a = '\\' := by
      intro q hq
      cases q <;> grind [Place.step]
    obtain rfl := hstep _ hu
    simp

/-- The reader at the places that are left for the text in front of the caret when it is bare and no
backslash comes last. -/
theorem Bare.code_or_string (h : Bare u) (hlast : u.getLast? ≠ some '\\') :
    Place.code.after u = .code ∨ Place.code.after u = .string := by
  cases hu : Place.code.after u with
  | code => exact Or.inl rfl
  | string => exact Or.inr rfl
  | comment => exact absurd hu (h u [] (List.append_nil u).symm)
  | escape => exact absurd (getLast?_of_escape hu) hlast

/-- A pair is read from code to code and from a string into it, but for a backslash with a quote in
code. -/
theorem step_of_isEmptyPair (h : isEmptyPair [c, d] = true) {p : Place}
    (hp : p = .code ∧ c ≠ '\\' ∨ p = .string) : (p.step c).step d = p := by
  have hmem := mem_of_isEmptyPair h
  simp only [List.mem_cons, Prod.mk.injEq, List.not_mem_nil, or_false] at hmem
  rcases hp with ⟨rfl, hc⟩ | rfl
  · rcases hmem with ⟨rfl, rfl⟩ | ⟨rfl, rfl⟩ | ⟨rfl, rfl⟩ | ⟨rfl, rfl⟩ | ⟨rfl, rfl⟩ <;>
      first | rfl | exact absurd rfl hc
  · rcases hmem with ⟨rfl, rfl⟩ | ⟨rfl, rfl⟩ | ⟨rfl, rfl⟩ | ⟨rfl, rfl⟩ | ⟨rfl, rfl⟩ <;> rfl

/-- Taking a pair out leaves the reader at its place, unless it is no pair to the reader, or its first
character is escaped. -/
theorem Bare.cases_of_isEmptyPair (h : Bare u) (hpair : isEmptyPair [c, d] = true) :
    Place.code.after u = Place.code.after (u ++ [c, d]) ∨
      Place.code.after u = .code ∧ c = '\\' ∧ d = '"' ∨ Place.code.after u = .escape := by
  have hstep : Place.code.after (u ++ [c, d]) = ((Place.code.after u).step c).step d :=
    Place.after_append _ _ _
  cases hu : Place.code.after u with
  | comment => exact absurd hu (h u [] (List.append_nil u).symm)
  | string => exact Or.inl (hu ▸ hstep.trans (step_of_isEmptyPair hpair (Or.inr hu))).symm
  | escape => exact Or.inr (Or.inr rfl)
  | code =>
    by_cases hc : c = '\\'
    · subst hc
      exact Or.inr (Or.inl ⟨rfl, rfl, by simpa using mem_of_isEmptyPair hpair⟩)
    · exact Or.inl (hu ▸ hstep.trans (step_of_isEmptyPair hpair (Or.inl ⟨hu, hc⟩))).symm

/-- A character that may be deleted alone does not lead out of code or a string, but for a backslash
in a string. -/
theorem Bare.step_of_not_isDelimiter (h : Bare (u ++ [c])) (hc : isDelimiter [c] = false)
    (hu : Place.code.after u = .code ∨ Place.code.after u = .string ∧ c ≠ '\\') :
    Place.code.after (u ++ [c]) = Place.code.after u := by
  have hquote : c ≠ '"' := by
    rintro rfl
    simp [isDelimiter_mark] at hc
  rcases hu with hu | ⟨hu, hslash⟩
  · rw [h.step_code hu hquote, hu]
  · simp [hu, Place.after, Place.step, hquote, hslash]

theorem exists_of_isEmptyPair (h : isEmptyPair (u.take 1 ++ v.take 1) = true) :
    ∃ c w d t, u = c :: w ∧ v = d :: t ∧ isEmptyPair [c, d] = true := by
  match u, v with
  | [], v => simp [isEmptyPair_of_length (show (v.take 1).length ≠ 2 by simp; omega)] at h
  | c :: w, [] => simp [isEmptyPair_of_length] at h
  | c :: w, d :: t => exact ⟨c, w, d, t, rfl, rfl, h⟩

theorem exists_of_take_two (h : isEmptyPair (v.take 2) = true) : ∃ c d t, v = c :: d :: t := by
  match v with
  | [] => simp [isEmptyPair_of_length] at h
  | [c] => simp [isEmptyPair_of_length] at h
  | c :: d :: t => exact ⟨c, d, t, rfl⟩

theorem exists_of_slash (h : (u.drop 1).take 1 = ['\\']) : ∃ c w, u = c :: '\\' :: w := by
  match u with
  | [] => simp at h
  | [c] => simp at h
  | c :: d :: w => exact ⟨c, w, by simp_all⟩

theorem after_cut {front mid : Text}
    (h : Place.code.after front = Place.code.after (front ++ mid)) (back : Text) :
    Place.code.after (front ++ back) = Place.code.after (front ++ mid ++ back) := by
  rw [Place.after_append, h, ← Place.after_append]

/-- A slip needs a backslash right at the caret: among the two characters in front of it, or behind
it. -/
theorem backslash_of_slip {k : Command} (h : Slip k u v e) :
    '\\' ∈ u.reverse.take 2 ++ v.take 1 := by
  have hescape : ∀ {w : Text}, Place.code.after w = .escape → ∃ w', w.reverse = '\\' :: w' := by
    intro w hw
    obtain ⟨w', rfl⟩ := List.getLast?_eq_some_iff.1 (getLast?_of_escape hw)
    exact ⟨w'.reverse, by simp⟩
  cases h with
  | deleteEscaped hu | deleteEscapedPair hu | deleteEscapedAround hu | quoteEscaped hu
  | splitEscaped hu =>
    obtain ⟨w, hw⟩ := hescape hu
    simp [hw]
  | _ => simp

/-! ## Deleting backwards -/

theorem backspaceEscape_or_slip (h : Bare (u ++ ['\\', c])) (v : Text) :
    Place.code.after u = Place.code.after (u ++ ['\\', c]) ∨
      ∃ e, Slip .backspacePair (u ++ ['\\', c]) v e := by
  have hcut : u ++ ['\\', c] = u ++ ['\\'] ++ [c] := by simp
  cases hu : Place.code.after u with
  | comment => exact absurd hu (h u _ rfl)
  | string => exact Or.inl (by rw [Place.after_append, hu]; rfl)
  | code =>
    by_cases hc : c = '"'
    · subst hc
      exact Or.inr ⟨_, .backspaceMark hu⟩
    · rw [hcut] at h ⊢
      have hslash : Place.code.after (u ++ ['\\']) = .code := by simp [hu, Place.after, Place.step]
      exact Or.inl (h.step_code hslash hc).symm
  | escape =>
    by_cases hc : c = '\\'
    · subst hc
      exact Or.inl (by rw [Place.after_append, hu]; rfl)
    · exact Or.inr ⟨_, .backspaceEscaped hu hc⟩

theorem backspaceAround_or_slip (h : Bare u) (hlast : u.getLast? ≠ some '\\')
    (hpair : isEmptyPair [c, d] = true) (v : Text) :
    Place.code.after u = Place.code.after (u ++ [c, d]) ∨
      ∃ e, Slip .backspacePair (u ++ [c]) (d :: v) e := by
  rcases h.cases_of_isEmptyPair hpair with heq | ⟨hu, rfl, rfl⟩ | hu
  · exact Or.inl heq
  · exact Or.inr ⟨_, .backspaceMarkAround hu hlast⟩
  · exact absurd (getLast?_of_escape hu) hlast

theorem backspaceOne_or_slip (h : Bare (u ++ [c])) (hlast : u.getLast? ≠ some '\\')
    (hpair : isEmptyPair (c :: v.take 1) = false) (hc : isDelimiter [c] = false) :
    Place.code.after u = Place.code.after (u ++ [c]) ∨ ∃ e, Slip .backspacePair (u ++ [c]) v e := by
  have hstep := h.step_of_not_isDelimiter hc
  rcases h.append_left.code_or_string hlast with hu | hu
  · exact Or.inl (hstep (Or.inl hu)).symm
  · by_cases hslash : c = '\\'
    · subst hslash
      refine Or.inr ⟨_, .backspaceEscape hu hlast fun hhead => ?_⟩
      cases hpair.symm.trans ((isEmptyPair_mark (Or.inr rfl) v).2 hhead)
    · exact Or.inl (hstep (Or.inr ⟨hu, hslash⟩)).symm

/-- Deleting backwards leaves the reader where the text left it, or there is a slip. -/
theorem after_backspaced (h : Bare (u.reverse ++ v)) :
    Place.code.after (backspaced u v) = Place.code.after (u.reverse ++ v) ∨
      ∃ e, Slip .backspacePair u.reverse v e := by
  unfold backspaced
  split
  · exact Or.inl rfl
  split
  · rename_i hslash
    obtain ⟨c, w, rfl⟩ := exists_of_slash hslash
    have hu : (c :: '\\' :: w).reverse = w.reverse ++ ['\\', c] := by simp
    rw [hu] at h ⊢
    exact (backspaceEscape_or_slip h.append_left v).imp_left fun heq => after_cut heq v
  rename_i hslash
  split
  · rename_i hpair
    obtain ⟨c, w, d, t, rfl, rfl, hpair⟩ := exists_of_isEmptyPair hpair
    rw [List.reverse_cons] at h ⊢
    have hcut : w.reverse ++ [c] ++ d :: t = w.reverse ++ [c, d] ++ t := by simp
    have hlast : w.reverse.getLast? ≠ some '\\' := by simpa [take_one_eq_iff] using hslash
    refine (backspaceAround_or_slip h.append_left.append_left hlast hpair t).imp_left fun heq => ?_
    rw [hcut]
    exact after_cut heq t
  rename_i hpair
  split
  · exact Or.inl rfl
  rename_i hdelimiter
  cases u with
  | nil => exact Or.inl rfl
  | cons c w =>
    have hlast : w.reverse.getLast? ≠ some '\\' := by simpa [take_one_eq_iff] using hslash
    rw [List.reverse_cons] at h ⊢
    exact (backspaceOne_or_slip h.append_left hlast (by simpa using hpair)
      (by simpa using hdelimiter)).imp_left fun heq => after_cut heq v

/-! ## Deleting forwards -/

theorem deletePair_or_slip (h : Bare u) (hpair : isEmptyPair [c, d] = true) (v : Text) :
    Place.code.after u = Place.code.after (u ++ [c, d]) ∨
      ∃ e, Slip .deletePairForward u (c :: d :: v) e := by
  rcases h.cases_of_isEmptyPair hpair with heq | ⟨hu, rfl, rfl⟩ | hu
  · exact Or.inl heq
  · exact Or.inr ⟨_, .deleteMark hu⟩
  · exact Or.inr ⟨_, .deleteEscapedPair hu hpair⟩

theorem deleteAround_or_slip (h : Bare u) (hpair : isEmptyPair [c, d] = true)
    (hnot : isEmptyPair (d :: v.take 1) = false) :
    Place.code.after u = Place.code.after (u ++ [c, d]) ∨
      ∃ e, Slip .deletePairForward (u ++ [c]) (d :: v) e := by
  rcases h.cases_of_isEmptyPair hpair with heq | ⟨hu, rfl, rfl⟩ | hu
  · exact Or.inl heq
  · refine Or.inr ⟨_, .deleteMarkAround hu fun hhead => ?_⟩
    cases hnot.symm.trans ((isEmptyPair_mark (Or.inl rfl) v).2 hhead)
  · exact Or.inr ⟨_, .deleteEscapedAround hu hpair hnot⟩

theorem deleteOne_or_slip (h : Bare (u ++ [c])) (hpair : isEmptyPair (c :: v.take 1) = false)
    (hc : isDelimiter [c] = false) :
    Place.code.after u = Place.code.after (u ++ [c]) ∨
      ∃ e, Slip .deletePairForward u (c :: v) e := by
  have hstep := h.step_of_not_isDelimiter hc
  cases hu : Place.code.after u with
  | comment => exact absurd hu (h u [c] rfl)
  | code => exact Or.inl (hu ▸ hstep (Or.inl hu)).symm
  | escape => exact Or.inr ⟨_, .deleteEscaped hu hc hpair⟩
  | string =>
    by_cases hslash : c = '\\'
    · subst hslash
      refine Or.inr ⟨_, .deleteEscape hu fun hhead => ?_⟩
      cases hpair.symm.trans ((isEmptyPair_mark (Or.inr rfl) v).2 hhead)
    · exact Or.inl (hu ▸ hstep (Or.inr ⟨hu, hslash⟩)).symm

/-- Deleting forwards leaves the reader where the text left it, or there is a slip. -/
theorem after_deletedAhead (h : Bare (u.reverse ++ v)) :
    Place.code.after (deletedAhead u v) = Place.code.after (u.reverse ++ v) ∨
      ∃ e, Slip .deletePairForward u.reverse v e := by
  unfold deletedAhead
  split
  · rename_i hpair
    obtain ⟨c, d, t, rfl⟩ := exists_of_take_two hpair
    have hcut : u.reverse ++ c :: d :: t = u.reverse ++ [c, d] ++ t := by simp
    refine (deletePair_or_slip h.append_left hpair t).imp_left fun heq => ?_
    rw [hcut]
    exact after_cut heq t
  rename_i hahead
  split
  · rename_i hpair
    obtain ⟨c, w, d, t, rfl, rfl, hpair⟩ := exists_of_isEmptyPair hpair
    rw [List.reverse_cons] at h ⊢
    have hcut : w.reverse ++ [c] ++ d :: t = w.reverse ++ [c, d] ++ t := by simp
    refine (deleteAround_or_slip h.append_left.append_left hpair
      (by simpa using hahead)).imp_left fun heq => ?_
    rw [hcut]
    exact after_cut heq t
  rename_i hpair
  split
  · exact Or.inl rfl
  rename_i hdelimiter
  cases v with
  | nil => exact Or.inl rfl
  | cons c t =>
    have hcut : u.reverse ++ c :: t = u.reverse ++ [c] ++ t := by simp
    rw [hcut] at h ⊢
    exact (deleteOne_or_slip h.append_left (by simpa using hahead)
      (by simpa using hdelimiter)).imp_left fun heq => after_cut heq t

end Text

end StructEdit
