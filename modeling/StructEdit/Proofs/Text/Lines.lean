import StructEdit.Proofs.Checked.Buffer
import StructEdit.Proofs.Text.Breaks

/-!
# What normalising takes away

Two readings of a text deal with its breaks. One cuts it into lines and takes a `\r` off the end of
each line but the last, the other goes through it once and replaces every `\r\n`. Both take away
the same characters, and no others: a `\r` goes when the next character is a `\n`. Of several `\r`
in front of a break one goes, and those that stand elsewhere stay, at the end of the text too.
-/
namespace StructEdit.Text

/-! ## How many lines there are -/

theorem length_consLine (c : Char) {ls : List Text} (h : ls ≠ []) :
    (consLine c ls).length = ls.length := by
  cases ls with
  | nil => exact absurd rfl h
  | cons l ls => rfl

theorem length_splitLines (s : Text) : (splitLines s).length = s.count '\n' + 1 := by
  fun_induction splitLines s with
  | case1 => rfl
  | case2 s ih =>
    rw [List.length_cons, ih, List.count_cons_of_ne (by decide), List.count_cons_self]
  | case3 s ih => rw [List.length_cons, ih, List.count_cons_self]
  | case4 c s _ hc ih =>
    rw [length_consLine c (splitLines_ne_nil s), ih, List.count_cons_of_ne fun h => hc h]

/-! ## Which characters go -/

/-- The character at a place is a `\r` that belongs to a break. -/
def BreakReturn (s : Text) (i : Nat) : Prop := s[i]? = some '\r' ∧ s[i + 1]? = some '\n'

instance (s : Text) (i : Nat) : Decidable (BreakReturn s i) :=
  inferInstanceAs (Decidable (_ ∧ _))

/-- The text without each `\r` that belongs to a break. -/
def withoutBreakReturns (s : Text) : Text :=
  (List.range s.length).filterMap fun i => if BreakReturn s i then none else s[i]?

theorem withoutBreakReturns_cons (c : Char) (s : Text) :
    withoutBreakReturns (c :: s) =
      if BreakReturn (c :: s) 0 then withoutBreakReturns s else c :: withoutBreakReturns s := by
  have hrest : ((List.range s.length).map Nat.succ).filterMap
      (fun i => if BreakReturn (c :: s) i then none else (c :: s)[i]?) = withoutBreakReturns s := by
    rw [List.filterMap_map]
    rfl
  rw [withoutBreakReturns, List.length_cons, List.range_succ_eq_map, List.filterMap_cons, hrest]
  by_cases hfirst : BreakReturn (c :: s) 0
  · rw [if_pos hfirst, if_pos hfirst]
  · rw [if_neg hfirst, if_neg hfirst]
    rfl

theorem normalizeBreaks_eq_withoutBreakReturns (s : Text) :
    normalizeBreaks s = withoutBreakReturns s := by
  fun_induction normalizeBreaks s with
  | case1 => rfl
  | case2 s ih =>
    have hreturn : BreakReturn ('\r' :: '\n' :: s) 0 := ⟨rfl, rfl⟩
    have hbreak : ¬BreakReturn ('\n' :: s) 0 := fun h => absurd h.1 (by simp)
    rw [withoutBreakReturns_cons, if_pos hreturn, withoutBreakReturns_cons, if_neg hbreak, ih]
  | case3 c s hne ih =>
    have hkept : ¬BreakReturn (c :: s) 0 := by
      rintro ⟨hc, hs⟩
      cases s with
      | nil => simp at hs
      | cons d s => exact hne s (Option.some.inj hc) (congrArg (· :: s) (Option.some.inj hs))
    rw [withoutBreakReturns_cons, if_neg hkept, ih]

/-- Lines and normalised breaks agree. The parts between the breaks, with a `\r` taken off the end
of each but the last, are the lines, and joined by breaks they are the text with its breaks
normalised. There is one line more than there are breaks, and no line holds a break. Normalising
takes away each `\r` with a `\n` behind it and leaves everything else as it is. -/
theorem splitLines_normalizes (s : Text) :
    Checked.splitLines s = some (splitLines s) ∧
    joinLines (splitLines s) = normalizeBreaks s ∧
    (splitLines s).length = s.count '\n' + 1 ∧
    (∀ l ∈ splitLines s, '\n' ∉ l) ∧
    normalizeBreaks s =
      (List.range s.length).filterMap fun i =>
        if s[i]? = some '\r' ∧ s[i + 1]? = some '\n' then none else s[i]? :=
  ⟨Checked.splitLines_eq s, joinLines_splitLines s, length_splitLines s,
    fun _ => not_mem_of_mem_splitLines, normalizeBreaks_eq_withoutBreakReturns s⟩

/-- Two `\r` in front of a break, and one at the end of the text. -/
example : splitLines ['a', '\r', '\r', '\n', 'b', '\r'] = [['a', '\r'], ['b', '\r']] ∧
    normalizeBreaks ['a', '\r', '\r', '\n', 'b', '\r'] = ['a', '\r', '\n', 'b', '\r'] := by
  decide

end StructEdit.Text
