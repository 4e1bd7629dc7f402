import StructEdit.Proofs.Scan.Lexing

/-!
# The characters of tokens in code

Blanks hold nothing but gaps, the characters between tokens, and in code nothing but blanks,
comments and strings holds gaps. A hash comes only at the start of a token in code, and there it
starts a mark or an opening bracket. So of two tokens that come to stand side by side, it is mostly
the first character of the second that says whether they stay apart.
-/
namespace StructEdit
open Pattern Scan

/-- The characters that blanks are made of. -/
def Text.isGap (c : Char) : Bool := c != '\n' && (isBlank c || c == ',')

structure Shape (k : Kind) (raw : Text) : Prop where
  gap : k = .blank → ∀ c ∈ raw, Text.isGap c = true
  head : k ≠ .blank → ∀ c, raw.head? = some c → Text.isGap c = false
  solid : k ≠ .blank → k ≠ .comment → k.isString = false → ∀ c ∈ raw, Text.isGap c = false
  hash : k ≠ .comment → k.isString = false → '#' ∉ raw.tail
  mark : raw.head? = some '#' → k = .mark ∨ k = .opening
  junk : k = .junk → raw.length = 1

namespace Scan

/-! ## Terminals -/

/-- A pattern that asks neither for gaps nor for the hash. -/
theorem shape_of_reads {p : Pattern} {k : Kind} {raw : Text} (h : p.Reads raw)
    (hgap : ∀ c, Text.isGap c = true → p.asks c = false) (hhash : p.asks '#' = false)
    (hblank : k ≠ .blank) (hjunk : k ≠ .junk) : Shape k raw := by
  have hnot : ∀ c ∈ raw, Text.isGap c = false := by
    intro c hc
    refine Bool.eq_false_iff.2 fun hg => ?_
    have := hgap c hg
    rw [h.asks_of_mem hc] at this
    cases this
  have hnone : '#' ∉ raw := fun hmem => by
    rw [h.asks_of_mem hmem] at hhash
    cases hhash
  exact ⟨fun hk => absurd hk hblank, fun _ c hc => hnot c (List.mem_of_mem_head? hc),
    fun _ _ _ => hnot, fun _ _ hmem => hnone (List.mem_of_mem_tail hmem),
    fun hc => absurd (List.mem_of_mem_head? hc) hnone, fun hk => absurd hk hjunk⟩

/-- One of some texts, none of which holds a gap, or a hash behind its start. -/
theorem shape_of_texts {texts : List String} {k : Kind} {raw : Text} (h : (anyOf texts).Reads raw)
    (hall : (texts.all fun s => s.toList.all (!Text.isGap ·) && !s.toList.tail.contains '#' &&
      (s.toList.head? != some '#' || k == .mark || k == .opening)) = true)
    (hblank : k ≠ .blank) (hjunk : k ≠ .junk) : Shape k raw := by
  obtain ⟨s, hs, rfl⟩ := List.mem_map.1 (reads_anyOf h)
  have hshape := List.all_eq_true.1 hall s hs
  simp only [Bool.and_eq_true, List.all_eq_true, Bool.not_eq_true', Bool.or_eq_true, bne_iff_ne,
    beq_iff_eq] at hshape
  obtain ⟨⟨hgap, hhash⟩, hmark⟩ := hshape
  refine ⟨fun hk => absurd hk hblank, fun _ c hc => hgap c (List.mem_of_mem_head? hc),
    fun _ _ _ => hgap, fun _ _ => by simpa using hhash, fun hc => ?_, fun hk => absurd hk hjunk⟩
  rcases hmark with (hne | hk) | hk
  · exact absurd hc hne
  · exact Or.inl hk
  · exact Or.inr hk

/-- A comment or a string, known by its first character. -/
theorem shape_of_head {k : Kind} {c : Char} {s : Text} (hk : k = .comment ∨ k.isString = true)
    (hgap : Text.isGap c = false) (hc : c ≠ '#') : Shape k (c :: s) := by
  have hkind : k ≠ .blank ∧ k ≠ .junk := by
    rcases hk with rfl | hk
    · exact ⟨by simp, by simp⟩
    · exact ⟨by rintro rfl; simp [Kind.isString] at hk, by rintro rfl; simp [Kind.isString] at hk⟩
  have hnot : k ≠ .comment → k.isString = false → False := fun h₁ h₂ =>
    hk.elim h₁ (by simp [h₂])
  refine ⟨fun h => absurd h hkind.1, fun _ d hd => ?_, fun _ h₁ h₂ => (hnot h₁ h₂).elim,
    fun h₁ h₂ => (hnot h₁ h₂).elim, fun hd => absurd (Option.some.inj hd) hc,
    fun h => absurd h hkind.2⟩
  obtain rfl := Option.some.inj hd
  exact hgap

/-- Where a gap lies among the characters. -/
theorem toNat_of_isGap {c : Char} (h : Text.isGap c = true) :
    c.toNat ≤ 32 ∨ c.toNat = 44 ∨ 133 ≤ c.toNat := by
  simp only [Text.isGap, Bool.and_eq_true, Bool.or_eq_true, beq_iff_eq] at h
  rcases h.2 with hblank | rfl
  · simp only [Text.isBlank, Text.blankRanges, List.any_cons, List.any_nil, Bool.or_false,
      Bool.or_eq_true, Bool.and_eq_true, decide_eq_true_eq] at hblank
    omega
  · exact Or.inr (Or.inl rfl)

theorem not_range_of_isGap {c : Char} (h : Text.isGap c = true) (lo hi : Char)
    (hlo : 45 ≤ lo.toNat) (hhi : hi.toNat < 133) : (CharSet.range lo hi).contains c = false := by
  have hgap := toNat_of_isGap h
  simp only [CharSet.contains, Bool.and_eq_false_iff, decide_eq_false_iff_not]
  have hle : ∀ a b : Char, a ≤ b ↔ a.toNat ≤ b.toNat := fun a b => Iff.rfl
  rw [hle, hle]
  omega

theorem not_ofList_of_isGap {c : Char} (h : Text.isGap c = true) {cs : List Char}
    (hcs : (cs.all (!Text.isGap ·)) = true) : (CharSet.ofList cs).contains c = false := by
  rw [CharSet.contains_ofList]
  refine Bool.eq_false_iff.2 fun hmem => ?_
  have := List.all_eq_true.1 hcs c (List.elem_iff.1 hmem)
  simp [h] at this

theorem delimiter_of_isGap {c : Char} (h : Text.isGap c = true) :
    delimiter.contains c = true := by
  simp only [Text.isGap, Bool.and_eq_true, Bool.or_eq_true, beq_iff_eq] at h
  rw [delimiter, CharSet.contains, Bool.or_eq_true]
  refine h.2.imp id ?_
  rintro rfl
  decide

theorem contains_gaps {c : Char} (hc : c ≠ '\n') : gaps.contains c = Text.isGap c := by
  have hne : (c != '\n') = true := bne_iff_ne.2 hc
  rw [Text.isGap, hne, Bool.true_and, gaps, CharSet.contains, CharSet.contains_single]
  rfl

theorem moves_gaps (spot : Spot) :
    Agenda.moves spot [[.further .most (.one gaps)]] =
      [.read gaps [.further .most (.one gaps)], .stop] := rfl

theorem reach?_gaps (before : Option Char) {s : Text} (h : '\n' ∉ s) :
    Agenda.reach? before [[.further .most (.one gaps)]] s =
      some (s.takeWhile Text.isGap).length := by
  induction s generalizing before with
  | nil => simp [Agenda.reach?, moves_gaps, Move.isStop]
  | cons c s ih =>
    have hc : c ≠ '\n' := by
      rintro rfl
      simp at h
    by_cases hg : Text.isGap c = true
    · have hnext : ((Agenda.moves ⟨before, some c⟩ [[.further .most (.one gaps)]]).takeWhile
          (!·.isStop)).filterMap (Move.next? c) = [[.further .most (.one gaps)]] := by
        simp [moves_gaps, Move.isStop, Move.next?, contains_gaps hc, hg]
      rw [Agenda.reach?_cons _ hnext, ih _ fun hm => h (List.mem_cons_of_mem _ hm),
        List.takeWhile_cons, if_pos hg]
      rfl
    · have hnext : Agenda.next before [[.further .most (.one gaps)]] c = [] := by
        rw [Agenda.next, moves_gaps]
        simp [Move.isStop, Move.next?, contains_gaps hc, hg]
      rw [Agenda.reach?_of_next_nil hnext, List.takeWhile_cons, if_neg hg]
      rfl

/-- A blank goes on over all gaps. -/
theorem matchLength?_blank {c : Char} {s : Text} (h : '\n' ∉ c :: s) (hg : Text.isGap c = true) :
    (Pattern.plus (.one gaps)).matchLength? (c :: s) =
      some ((c :: s).takeWhile Text.isGap).length := by
  have hc : c ≠ '\n' := by
    rintro rfl
    simp at h
  have hmoves : ∀ spot, Agenda.moves spot [[Pattern.plus (.one gaps)]] =
      [.read gaps [.further .most (.one gaps)]] := fun _ => rfl
  have hnext : ((Agenda.moves ⟨none, some c⟩ [[Pattern.plus (.one gaps)]]).takeWhile
      (!·.isStop)).filterMap (Move.next? c) = [[.further .most (.one gaps)]] := by
    simp [hmoves, Move.isStop, Move.next?, contains_gaps hc, hg]
  rw [matchLength?, Agenda.reach?_cons _ hnext, reach?_gaps _ fun hm => h (List.mem_cons_of_mem _ hm),
    List.takeWhile_cons, if_pos hg]
  rfl

/-- The at sign is neither a gap nor a hash. -/
theorem shape_junk {c : Char} {s : Text} {n : Nat}
    (h : codeGrammar.longest? (c :: s) = some (.junk, n)) : Shape .junk [c] := by
  rw [junk_of_code h]
  refine ⟨by simp, fun _ d hd => ?_, fun _ _ _ d hd => ?_, by simp, by simp, fun _ => rfl⟩
  · obtain rfl := Option.some.inj hd
    decide
  · obtain rfl := List.mem_singleton.1 hd
    decide

/-- What stands in a blank, its terminal asks for. -/
theorem shape_blank {raw : Text} (hn : '\n' ∉ raw) (h : (Pattern.plus (.one gaps)).Reads raw) :
    Shape .blank raw := by
  have hgap : ∀ c ∈ raw, Text.isGap c = true := by
    intro c hc
    rw [← contains_gaps fun hc' => hn (hc' ▸ hc)]
    exact h.asks_of_mem hc
  have hhash : '#' ∉ raw := fun hmem => by
    have := hgap _ hmem
    simp [Text.isGap, Text.isBlank, Text.blankRanges] at this
  exact ⟨fun _ => hgap, fun hk => absurd rfl hk, fun hk => absurd rfl hk,
    fun _ _ hmem => hhash (List.mem_of_mem_tail hmem),
    fun hc => absurd (List.mem_of_mem_head? hc) hhash, by simp⟩

section Gap

variable {c : Char} (h : Text.isGap c = true)
include h

theorem not_single_of_isGap {d : Char} (hd : Text.isGap d = false) :
    (CharSet.single d).contains c = false := by
  rw [CharSet.contains_single, decide_eq_false_iff_not]
  rintro rfl
  rw [hd] at h
  cases h

theorem not_digit_of_isGap : digit.contains c = false :=
  not_range_of_isGap h '0' '9' (by decide) (by decide)

theorem not_asks_radixNumber : radixNumber.asks c = false := by
  have hradix : (CharSet.ofList ['r', 'R']).contains c = false := not_ofList_of_isGap h (by decide)
  have hlower := not_range_of_isGap h 'a' 'z' (by decide) (by decide)
  have hupper := not_range_of_isGap h 'A' 'Z' (by decide) (by decide)
  show (digit.contains c || ((CharSet.ofList ['r', 'R']).contains c || (digit.contains c ||
    ((CharSet.range 'a' 'z').contains c || (CharSet.range 'A' 'Z').contains c)))) = false
  rw [not_digit_of_isGap h, hradix, hlower, hupper]
  rfl

theorem not_asks_decimalNumber : decimalNumber.asks c = false := by
  have hsign : (CharSet.ofList ['-', '+']).contains c = false := not_ofList_of_isGap h (by decide)
  have hpower : (CharSet.ofList ['e', 'E']).contains c = false := not_ofList_of_isGap h (by decide)
  show (((CharSet.ofList ['-', '+']).contains c || false) || (digit.contains c ||
    ((((CharSet.single '.').contains c || digit.contains c) || false) ||
    (((CharSet.ofList ['e', 'E']).contains c || (((CharSet.ofList ['-', '+']).contains c || false) ||
    digit.contains c)) || false)))) = false
  rw [not_digit_of_isGap h, hsign, hpower, not_single_of_isGap h (d := '.') (by decide)]
  rfl

theorem not_symbolChar_of_isGap : symbolChar.contains c = false := by
  rw [symbolChar, CharSet.contains, delimiter_of_isGap h]
  rfl

theorem not_symbolHead_of_isGap : symbolHead.contains c = false := by
  rw [symbolHead, CharSet.contains, CharSet.contains, delimiter_of_isGap h, Bool.or_true]
  rfl

end Gap

theorem shape_code {raw rest : Text} {k : Kind} (hn : '\n' ∉ raw ++ rest)
    (h : Mode.code.read? (raw ++ rest) = some (k, raw.length)) : Shape k raw := by
  have hr := longest?_of_code h
  obtain ⟨t, ht, rfl, hm⟩ := Grammar.exists_of_longest? hr
  have hreads := reads_of_matchLength? hm
  rw [List.take_left] at hreads
  simp only [codeGrammar, List.mem_cons, List.not_mem_nil, or_false] at ht
  rcases ht with rfl | rfl | rfl | rfl | rfl | rfl | rfl | rfl | rfl | rfl | rfl | rfl | rfl
  · exact shape_blank (fun hm => hn (List.mem_append_left _ hm)) hreads
  · obtain ⟨u, s, rfl, hu, -⟩ := reads_seq.1 hreads
    obtain rfl := reads_char.1 hu
    exact shape_of_head (Or.inl rfl) (by decide) (by decide)
  · exact shape_of_texts hreads (by decide +kernel) (by simp) (by simp)
  · exact shape_of_texts hreads (by decide +kernel) (by simp) (by simp)
  · exact shape_of_texts hreads (by decide +kernel) (by simp) (by simp)
  · exact shape_of_texts hreads (by decide +kernel) (by simp) (by simp)
  · exact shape_of_reads hreads (fun _ hg => not_asks_radixNumber hg) (by decide +kernel) (by simp)
      (by simp)
  · exact shape_of_reads hreads (fun _ hg => not_asks_decimalNumber hg) (by decide +kernel) (by simp)
      (by simp)
  · refine shape_of_reads hreads (fun c hg => ?_) (by decide +kernel) (by simp) (by simp)
    show ((CharSet.single ':').contains c || symbolChar.contains c) = false
    rw [not_single_of_isGap hg (d := ':') (by decide), not_symbolChar_of_isGap hg]
    rfl
  · refine shape_of_reads hreads (fun c hg => ?_) (by decide +kernel) (by simp) (by simp)
    show (symbolHead.contains c || symbolChar.contains c) = false
    rw [not_symbolHead_of_isGap hg, not_symbolChar_of_isGap hg]
    rfl
  · obtain ⟨u, v, rfl, hu, -⟩ := reads_seq.1 hreads
    obtain rfl := reads_char.1 hu
    exact shape_of_head (Or.inr rfl) (by decide) (by decide)
  · obtain ⟨u, v, rfl, hu, -⟩ := reads_seq.1 hreads
    obtain rfl := reads_char.1 hu
    exact shape_of_head (Or.inr rfl) (by decide) (by decide)
  · cases hreads with
    | one _ => exact shape_junk hr

end Scan

namespace Mode

variable {raw s t : Text} {k : Kind}

theorem shape_token? (h : Mode.code.token? (raw ++ t) = some (k, raw.length)) : Shape k raw := by
  rcases token?_cases h with ⟨rfl, rfl⟩ | ⟨-, hbreak, hread⟩
  · refine ⟨by simp, fun _ c hc => ?_, fun _ _ _ c hc => ?_, by simp, by simp, by simp⟩
    · obtain rfl := Option.some.inj hc
      decide
    · obtain rfl := List.mem_singleton.1 hc
      decide
  · refine shape_code ?_ hread
    rw [← Text.firstLine_append hbreak]
    exact Text.not_mem_firstLine _

/-- Junk is one character, in code and in a string. -/
theorem length_of_junk {m : Mode} (h : m.token? (raw ++ t) = some (.junk, raw.length)) :
    raw.length = 1 := by
  cases m with
  | code => exact (shape_token? h).junk rfl
  | string =>
    rcases token?_cases h with ⟨hk, -⟩ | ⟨hne, hbreak, hread⟩
    · cases hk
    · have hline : '\n' ∉ raw ++ t.firstLine := by
        rw [← Text.firstLine_append hbreak]
        exact Text.not_mem_firstLine _
      rw [(junk_of_string hne hline hread).1]
      rfl

/-- A token that has code inside it starts in code, and is neither a comment nor a string. -/
theorem Agrees.plain {m : Mode} {p : Place} {n : Nat} (h : m.Agrees p (raw ++ t))
    (htoken : m.token? (raw ++ t) = some (k, raw.length)) (hpos : 0 < n) (hn : n < raw.length)
    (hcode : p.after (raw.take n) = .code) :
    p = .code ∧ m = .code ∧ k ≠ .comment ∧ k.isString = false := by
  obtain ⟨hsuits, -⟩ := h.suits htoken
  have hholds := hsuits.holds n hn hpos
  rw [hcode] at hholds
  have hjunk : k ≠ .junk := by
    rintro rfl
    have := length_of_junk htoken
    omega
  have hline : k ≠ .lineEnd := by
    intro hk
    rw [hsuits.lineEnd hk, List.length_singleton] at hn
    omega
  have hp : p = .code := by
    have hadmits := hsuits.admits
    have hstring := hholds.2
    cases p <;> cases k <;> simp_all [Place.admits, Kind.isString]
  subst hp
  exact ⟨rfl, h.mode_eq (w := .code), hholds.1, hholds.2⟩

theorem takeWhile_firstLine (s : Text) :
    s.firstLine.takeWhile Text.isGap = s.takeWhile Text.isGap := by
  induction s with
  | nil => rfl
  | cons c s ih =>
    by_cases hc : c = '\n'
    · subst hc
      rfl
    · have hfirst : Text.firstLine (c :: s) = c :: Text.firstLine s :=
        List.takeWhile_cons_of_pos (bne_iff_ne.2 hc)
      rw [hfirst, List.takeWhile_cons, List.takeWhile_cons, ih]

/-- In front of a gap, the token is a blank that goes on over all gaps. -/
theorem token?_gap {c : Char} (hc : Text.isGap c = true) (s : Text) :
    Mode.code.token? (c :: s) = some (.blank, ((c :: s).takeWhile Text.isGap).length) := by
  have hne : c ≠ '\n' := by
    rintro rfl
    simp [Text.isGap] at hc
  cases h : Mode.code.token? (c :: s) with
  | none => simpa using token?_eq_none h
  | some r =>
    obtain ⟨k, n⟩ := r
    obtain ⟨hpos, hle⟩ := token?_fits h
    have hlen : ((c :: s).take n).length = n := by rw [List.length_take, Nat.min_eq_left hle]
    have hshape : Shape k ((c :: s).take n) := by
      refine shape_token? (t := (c :: s).drop n) ?_
      rw [List.take_append_drop, hlen, h]
    have hhead : ((c :: s).take n).head? = some c := by
      obtain ⟨m, rfl⟩ := Nat.exists_eq_add_one.2 hpos
      rfl
    obtain rfl : k = .blank := by
      refine Decidable.byContradiction fun hk => ?_
      have := hshape.head hk c hhead
      rw [hc] at this
      cases this
    rw [token?_eq_read? hne] at h
    have hline := Text.not_mem_firstLine (c :: s)
    have hlongest := longest?_of_code h
    obtain ⟨x, hx, hkind, hx'⟩ := Grammar.exists_of_longest? hlongest
    have hblank : ∀ y ∈ codeGrammar, y.kind = .blank → y.pattern = Pattern.plus (.one gaps) := by
      decide +kernel
    rw [hblank x hx hkind] at hx'
    have hfirst : Text.firstLine (c :: s) = c :: Text.firstLine s :=
      List.takeWhile_cons_of_pos (bne_iff_ne.2 hne)
    rw [hfirst] at hx' hline
    rw [Matcher.length?_pattern, matchLength?_blank hline hc, ← hfirst,
      takeWhile_firstLine] at hx'
    rw [Option.some.inj hx']

end Mode
end StructEdit
