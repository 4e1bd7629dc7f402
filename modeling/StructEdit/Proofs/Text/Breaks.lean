import StructEdit.Text.Lines

/-!
# Line breaks, split and joined

Splitting a text into lines and joining them again gives the text with its breaks
normalised. A text is stored as it stands when no `\r` of it is directly followed by
`\n`; in particular a text without `\n`, or without `\r`, is. Lines never hold a `\n`.
-/
namespace StructEdit.Text

theorem joinLines_consLine (c : Char) (ls : List Text) :
    joinLines (consLine c ls) = c :: joinLines ls := by
  match ls with
  | [] => rfl
  | [_] => rfl
  | _ :: _ :: _ => rfl

theorem joinLines_append {ls ms : List Text} (hl : ls ≠ []) (hm : ms ≠ []) :
    joinLines (ls ++ ms) = joinLines ls ++ '\n' :: joinLines ms := by
  induction ls with
  | nil => exact absurd rfl hl
  | cons l ls ih =>
    by_cases hls : ls = []
    · subst hls
      exact joinLines_cons l hm
    · rw [List.cons_append, joinLines_cons l (by simp [hls]), ih hls, joinLines_cons l hls,
        List.append_assoc, List.cons_append]

theorem joinLines_splitLines (s : Text) : joinLines (splitLines s) = normalizeBreaks s := by
  fun_induction splitLines s with
  | case1 => rfl
  | case2 s ih => rw [joinLines_cons _ (splitLines_ne_nil s), ih]; rfl
  | case3 s ih => rw [joinLines_cons _ (splitLines_ne_nil s), ih]; simp [normalizeBreaks]
  | case4 c s h₁ h₂ ih =>
    rw [joinLines_consLine, ih, normalizeBreaks]
    intro t hc hs
    exact h₁ t hc hs

theorem mem_consLine {c : Char} {ls : List Text} {l : Text} (h : l ∈ consLine c ls) :
    l ∈ ls ∨ ∃ m, l = c :: m ∧ (m ∈ ls ∨ m = []) := by
  cases ls with
  | nil => exact Or.inr ⟨[], by simpa [consLine] using h, Or.inr rfl⟩
  | cons m ls =>
    rcases List.mem_cons.1 h with rfl | h
    · exact Or.inr ⟨m, rfl, Or.inl List.mem_cons_self⟩
    · exact Or.inl (List.mem_cons_of_mem _ h)

/-- A line holds no break. -/
theorem not_mem_of_mem_splitLines {s l : Text} (h : l ∈ splitLines s) : '\n' ∉ l := by
  fun_induction splitLines s generalizing l with
  | case1 => simp_all
  | case2 s ih =>
    rcases List.mem_cons.1 h with rfl | h
    · simp
    · exact ih h
  | case3 s ih =>
    rcases List.mem_cons.1 h with rfl | h
    · simp
    · exact ih h
  | case4 c s h₁ h₂ ih =>
    rcases mem_consLine h with h | ⟨m, rfl, h | rfl⟩
    · exact ih h
    · intro hm
      rcases List.mem_cons.1 hm with hc | hm
      · exact h₂ hc.symm
      · exact ih h hm
    · intro hm
      exact h₂ (List.mem_singleton.1 hm).symm

theorem normalizeBreaks_of_not_mem_newline {s : Text} (h : '\n' ∉ s) : normalizeBreaks s = s := by
  fun_induction normalizeBreaks s with
  | case1 => rfl
  | case2 s ih => simp at h
  | case3 c s _ ih => rw [ih fun hm => h (List.mem_cons_of_mem _ hm)]

theorem normalizeBreaks_of_not_mem_return {s : Text} (h : '\r' ∉ s) : normalizeBreaks s = s := by
  fun_induction normalizeBreaks s with
  | case1 => rfl
  | case2 s ih => simp at h
  | case3 c s _ ih => rw [ih fun hm => h (List.mem_cons_of_mem _ hm)]

/-- Every `\r` of the text belongs to a break. -/
def ReturnsInBreaks : Text → Prop
  | [] => True
  | '\r' :: '\n' :: s => ReturnsInBreaks s
  | c :: s => c ≠ '\r' ∧ ReturnsInBreaks s

theorem not_mem_return_normalizeBreaks {s : Text} (h : ReturnsInBreaks s) :
    '\r' ∉ normalizeBreaks s := by
  fun_induction normalizeBreaks s with
  | case1 => simp
  | case2 s ih =>
    intro hm
    rcases List.mem_cons.1 hm with hc | hm
    · exact absurd hc (by decide)
    · exact ih h hm
  | case3 c s hne ih =>
    rw [ReturnsInBreaks.eq_3 c s hne] at h
    intro hm
    rcases List.mem_cons.1 hm with hc | hm
    · exact h.1 hc.symm
    · exact ih h.2 hm

theorem returnsInBreaks_of_not_mem {s : Text} (h : '\r' ∉ s) : ReturnsInBreaks s := by
  fun_induction ReturnsInBreaks s with
  | case1 => trivial
  | case2 s ih => simp at h
  | case3 c s hne ih =>
    exact ⟨fun hc => h (hc ▸ List.mem_cons_self), ih fun hm => h (List.mem_cons_of_mem _ hm)⟩

end StructEdit.Text
