import StructEdit.Proofs.Pattern.Behind
import StructEdit.Proofs.Pattern.Reads

/-!
# What the terminals read

A terminal reads a text of its pattern. That is enough to know the brackets, strings and
atoms. Three more facts say what is left over for others: a comment takes the whole rest
of its line, in code every character but the at sign starts an offer of a terminal that comes
before junk, and in a string every character but a last backslash is read.
-/
namespace StructEdit
open Pattern Scan

namespace Scan

/-- The terminals of code before the last one, which reads any character as junk. -/
def readable : Grammar := codeGrammar.take 12

theorem codeGrammar_eq : codeGrammar = readable ++ [⟨.one .dot, .junk⟩] := rfl

/-! ## Comments -/

theorem moves_toLineEnd (spot : Spot) :
    Agenda.moves spot [[Pattern.star (.one .dot)]] =
      [.read .dot [Pattern.star (.one .dot)], .stop] := rfl

theorem reach?_toLineEnd (before : Option Char) {s : Text} (h : '\n' ∉ s) :
    Agenda.reach? before [[Pattern.star (.one .dot)]] s = some s.length := by
  induction s generalizing before with
  | nil => simp [Agenda.reach?, moves_toLineEnd, Move.isStop]
  | cons c s ih =>
    have hc : c ≠ '\n' := by
      rintro rfl
      simp at h
    have hnext : ((Agenda.moves ⟨before, some c⟩ [[Pattern.star (.one .dot)]]).takeWhile
        (!·.isStop)).filterMap (Move.next? c) = [[Pattern.star (.one .dot)]] := by
      simp [moves_toLineEnd, Move.isStop, Move.next?, CharSet.contains_dot, hc]
    rw [Agenda.reach?_cons _ hnext, ih _ fun hm => h (List.mem_cons_of_mem _ hm)]
    rfl

/-- A comment goes on to the end of the line. -/
theorem matchLength?_comment {s : Text} (h : '\n' ∉ s) :
    (Pattern.seq (.char ';') (Pattern.star (.one .dot))).matchLength? (';' :: s) =
      some (s.length + 1) := by
  rw [matchLength?, Agenda.reach?_cons [Pattern.star (.one .dot)] rfl, reach?_toLineEnd _ h]
  rfl

/-! ## Strings -/

theorem moves_stringChars (spot : Spot) :
    Agenda.moves spot [[stringChars]] =
      [.read (.compl (.ofList ['"', '\\'])) [stringChars],
       .read (.single '\\') [.one .dot, stringChars], .stop] := rfl

/-- The characters of a string may be none. -/
theorem reach?_stringChars (before : Option Char) (s : Text) :
    ∃ n, Agenda.reach? before [[stringChars]] s = some n := by
  have hstop : ∀ spot, (Agenda.moves spot [[stringChars]]).any Move.isStop = true := fun _ => rfl
  cases s with
  | nil => exact ⟨0, by simp [Agenda.reach?, hstop]⟩
  | cons c s =>
    simp only [Agenda.reach?, hstop]
    split
    · exact ⟨0, rfl⟩
    · simp only [↓reduceIte, Option.or_some]
      exact ⟨_, rfl⟩

theorem matchLength?_stringEnd (s : Text) :
    (Pattern.seq stringChars (.char '"')).matchLength? ('"' :: s) = some 1 := by
  rw [matchLength?, Agenda.reach?_cons [] rfl, Agenda.reach?_done]
  rfl

theorem matchLength?_stringMiddle {c : Char} (hq : c ≠ '"') (hb : c ≠ '\\') (s : Text) :
    ∃ n, stringChars.matchLength? (c :: s) = some (n + 1) := by
  obtain ⟨n, hn⟩ := reach?_stringChars (some c) s
  have hnext : ((Agenda.moves ⟨none, some c⟩ [[stringChars]]).takeWhile
      (!·.isStop)).filterMap (Move.next? c) = [[stringChars]] := by
    simp [moves_stringChars, Move.isStop, Move.next?, CharSet.contains, CharSet.contains_ofList,
      CharSet.contains_single, hq, hb]
  refine ⟨n, ?_⟩
  rw [matchLength?, Agenda.reach?_cons _ hnext, hn]
  rfl

theorem matchLength?_escaped {c : Char} (hc : c ≠ '\n') (s : Text) :
    ∃ n, stringChars.matchLength? ('\\' :: c :: s) = some (n + 1) := by
  obtain ⟨n, hn⟩ := reach?_stringChars (some c) s
  have hdot : ∀ spot, Agenda.moves spot [[.one .dot, stringChars]] =
      [.read .dot [stringChars]] := fun _ => rfl
  have hnext : ((Agenda.moves ⟨some '\\', some c⟩ [[.one .dot, stringChars]]).takeWhile
      (!·.isStop)).filterMap (Move.next? c) = [[stringChars]] := by
    simp [hdot, Move.isStop, Move.next?, CharSet.contains_dot, hc]
  refine ⟨n + 1, ?_⟩
  rw [matchLength?, Agenda.reach?_cons [.one .dot, stringChars] rfl,
    Agenda.reach?_cons _ hnext, hn]
  rfl

/-! ## Code -/

/-- The characters that the blank terminal asks for. -/
def gaps : CharSet := .union .blank (.single ',')

/-- A pattern that reads one character and may stop behind it. -/
theorem matchLength?_single {p : Pattern} {k : CharSet} {c : Char} (next : Agenda)
    (hmoves : ∀ spot, Agenda.moves spot [[p]] = [.read k next])
    (hstop : ∀ spot, (Agenda.moves spot [next]).any Move.isStop = true)
    (hc : k.contains c = true) : p.matchLength? [c] = some 1 := by
  have hnext : ((Agenda.moves ⟨none, some c⟩ [[p]]).takeWhile (!·.isStop)).filterMap
      (Move.next? c) = [next] := by
    simp [hmoves, Move.isStop, Move.next?, hc]
  rw [matchLength?, Agenda.reach?_cons next hnext, Agenda.reach?, if_pos (hstop _)]
  rfl

/-- The delimiters of code but the at sign and blanks, and the colon. -/
def signs : Text :=
  ['(', ')', '[', ']', '\x7b', '\x7d', '#', '~', '\'', '\x60', '^', '"', ';', ':']

theorem cases_of_ne_at {c : Char} (h : c ≠ '@') :
    gaps.contains c = true ∨ symbolHead.contains c = true ∨ c ∈ signs := by
  simp only [gaps, symbolHead, delimiter, signs, CharSet.contains, CharSet.contains_single,
    CharSet.contains_ofList, List.mem_cons, List.not_mem_nil, or_false, Bool.or_eq_true,
    Bool.not_eq_true', Bool.or_eq_false_iff, decide_eq_true_eq, decide_eq_false_iff_not,
    List.elem_eq_mem]
  grind

/-- Every character but the at sign is read by some terminal before the last one. -/
theorem exists_matchLength?_single {c : Char} (h : c ≠ '@') :
    ∃ t ∈ readable, t.pattern.matchLength? [c] = some 1 := by
  rcases cases_of_ne_at h with hgap | hhead | hsign
  · exact ⟨_, List.mem_of_getElem? (i := 0) rfl,
      matchLength?_single [.further .most (.one gaps)] (fun _ => rfl) (fun _ => rfl) hgap⟩
  · exact ⟨_, List.mem_of_getElem? (i := 9) rfl,
      matchLength?_single [.star (.one symbolChar)] (fun _ => rfl) (fun _ => rfl) hhead⟩
  · have hall : (signs.all fun d =>
        readable.any fun t => t.pattern.matchLength? [d] == some 1) = true := by decide +kernel
    obtain ⟨t, ht, hone⟩ := List.any_eq_true.1 (List.all_eq_true.1 hall c hsign)
    exact ⟨t, ht, beq_iff_eq.1 hone⟩

/-- So it is, whatever stands behind the character. -/
theorem exists_offer {g : Grammar} (hg : g ⊆ codeGrammar) {c : Char}
    (h : ∃ t ∈ g, t.pattern.matchLength? [c] = some 1) (s : Text) :
    ∃ t ∈ g, ∃ n, 0 < n ∧ t.pattern.matchLength? (c :: s) = some n := by
  obtain ⟨t, ht, hone⟩ := h
  rcases matchLength?_append (Mode.code.isFree_grammar t (hg ht)) [c] s with heq | ⟨n, hn, hlt⟩
  · exact ⟨t, ht, 1, Nat.one_pos, heq.trans hone⟩
  · exact ⟨t, ht, n, Nat.zero_lt_of_lt hlt, hn⟩

theorem readable_subset : readable ⊆ codeGrammar := List.take_subset 12 codeGrammar

/-- In code something is read of every text, breaks included. -/
theorem exists_longest?_code {s : Text} (h : s ≠ []) : ∃ r, codeGrammar.longest? s = some r := by
  obtain ⟨c, s, rfl⟩ := List.exists_cons_of_ne_nil h
  have hone : ∃ t ∈ codeGrammar, t.pattern.matchLength? [c] = some 1 := by
    by_cases hc : c = '@'
    · subst hc
      exact ⟨⟨.one .dot, .junk⟩, List.mem_of_getElem? (i := 12) rfl, rfl⟩
    · obtain ⟨t, ht, hone⟩ := exists_matchLength?_single hc
      exact ⟨t, readable_subset ht, hone⟩
  obtain ⟨t, ht, n, hpos, hn⟩ := exists_offer (List.Subset.refl _) hone s
  cases hl : codeGrammar.longest? (c :: s) with
  | some r => exact ⟨r, rfl⟩
  | none =>
    have := Grammar.eq_zero_of_longest?_none hl t ht n hn
    omega

/-! ## In a string -/

/-- Without a break, a string grammar finds nothing only at the end and in front of a backslash that
is the last character. -/
theorem longest?_string_eq_none {s : Text} (hn : '\n' ∉ s) :
    stringGrammar.longest? s = none ↔ s = [] ∨ s = ['\\'] := by
  constructor
  · intro hnone
    have hzero := Grammar.eq_zero_of_longest?_none hnone
    have hend := hzero _ (List.mem_of_getElem? (i := 0) rfl)
    have hmiddle := hzero _ (List.mem_of_getElem? (i := 1) rfl)
    cases s with
    | nil => exact Or.inl rfl
    | cons c s =>
      refine Or.inr ?_
      by_cases hq : c = '"'
      · subst hq
        have := hend 1 (matchLength?_stringEnd s)
        omega
      · by_cases hb : c = '\\'
        · subst hb
          cases s with
          | nil => rfl
          | cons d s =>
            obtain ⟨n, hn'⟩ := matchLength?_escaped (show d ≠ '\n' by rintro rfl; simp at hn) s
            have := hmiddle _ hn'
            omega
        · obtain ⟨n, hn'⟩ := matchLength?_stringMiddle hq hb s
          have := hmiddle _ hn'
          omega
  · rintro (rfl | rfl) <;> rfl

/-- The characters that are read as brackets, as a string or as a comment. -/
def delimiters : Text := ['(', '[', '\x7b', ')', ']', '\x7d', '"', ';']

end Scan
end StructEdit
