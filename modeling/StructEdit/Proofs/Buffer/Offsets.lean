import StructEdit.Buffer.Basic

/-!
# Offsets, positions and the text

The position of an offset lies in the lines, its row grows with the offset, and the
room before it is the offset again, or the largest one when the offset lies past the
end. Cutting the lines at a position therefore cuts the text at the offset, which
gives `slice_eq`: what lies between two offsets is a piece of the text.
-/
namespace StructEdit
open Text

theorem extent_pos {ls : List Line} (h : ls ≠ []) : 0 < extent ls := by
  cases ls with
  | nil => exact absurd rfl h
  | cons l ls => simp only [extent]; omega

/-! ## Positions -/

theorem row_locate_lt {ls : List Line} (h : ls ≠ []) (n : Nat) : (locate ls n).row < ls.length := by
  fun_induction locate ls n with
  | case1 => exact absurd rfl h
  | case2 => simp
  | case3 l ls n hne hle => simp
  | case4 l ls n hne hle p ih =>
    have hls : ls ≠ [] := fun he => hne (by rw [he])
    have := ih hls
    simp only [List.length_cons]
    exact Nat.succ_lt_succ this

/-- The column of a position lies in its row. -/
theorem column_locate_le {ls : List Line} {n : Nat} {l : Line}
    (h : ls[(locate ls n).row]? = some l) : (locate ls n).column ≤ l.length := by
  fun_induction locate ls n with
  | case1 => simp at h
  | case2 =>
    obtain rfl : _ = l := by simpa using h
    exact Nat.min_le_right _ _
  | case3 m ls n hne hle =>
    obtain rfl : m = l := by simpa using h
    exact hle
  | case4 m ls n hne hle p ih => exact ih (by simpa using h)

/-- The room before the position of an offset. -/
theorem extent_locate {ls : List Line} (h : ls ≠ []) (n : Nat) :
    extent (ls.take (locate ls n).row) + (locate ls n).column = min n (extent ls - 1) := by
  fun_induction locate ls n with
  | case1 => exact absurd rfl h
  | case2 l n => simp [extent]
  | case3 l ls n hne hle =>
    simp only [List.take_zero, extent]
    omega
  | case4 l ls n hne hle p ih =>
    have hls : ls ≠ [] := fun he => hne (by rw [he])
    have hi := ih hls
    have hp := extent_pos hls
    simp only [List.take_succ_cons, extent, p]
    omega

theorem row_locate_mono (ls : List Line) {m n : Nat} (h : m ≤ n) :
    (locate ls m).row ≤ (locate ls n).row := by
  induction ls generalizing m n with
  | nil => exact Nat.le_refl _
  | cons l ls ih =>
    cases ls with
    | nil => exact Nat.le_refl _
    | cons k ls =>
      simp only [locate]
      split
      · exact Nat.zero_le _
      · rw [if_neg (by omega)]
        exact Nat.succ_le_succ (ih (by omega))

/-- An offset that is not behind the row `l`, or behind the last one. -/
theorem locate_append {above : List Line} {l : Line} {below : List Line} {n : Nat}
    (hlow : extent above ≤ n) (hhigh : n ≤ extent above + l.length ∨ below = []) :
    locate (above ++ l :: below) n = ⟨above.length, min (n - extent above) l.length⟩ := by
  induction above generalizing n with
  | nil =>
    cases below with
    | nil => rfl
    | cons m below =>
      have hle : n ≤ l.length := by simpa [extent] using hhigh
      simp [locate, hle, extent]
  | cons k above ih =>
    simp only [extent] at hlow hhigh ⊢
    have hrest := @ih (n - (k.length + 1)) (by omega) (hhigh.imp_left fun h => by omega)
    rw [List.cons_append, locate.eq_3 n k _ (by simp), if_neg (by omega), hrest]
    simp only [List.length_cons, Position.mk.injEq, true_and]
    congr 1
    omega

/-- Lines of the same lengths give an offset the same position. -/
theorem locate_congr {ls ms : List Line} (h : ls.map Line.text = ms.map Line.text) (n : Nat) :
    locate ls n = locate ms n := by
  induction ls generalizing ms n with
  | nil =>
    obtain rfl : ms = [] := by simpa using h.symm
    rfl
  | cons l ls ih =>
    cases ms with
    | nil => simp at h
    | cons m ms =>
      simp only [List.map_cons, List.cons.injEq] at h
      have hlen : l.length = m.length := congrArg List.length h.1
      have hnil : ls = [] ↔ ms = [] := by
        rw [← List.map_eq_nil_iff (f := Line.text), h.2, List.map_eq_nil_iff]
      by_cases hls : ls = []
      · rw [hls, hnil.1 hls]
        simp only [locate, hlen]
      · rw [locate, locate, hlen, ih h.2]
        · exact fun he => hls (hnil.2 he)
        · exact hls

/-! ## Cutting the text -/

/-- A text cut inside one of its lines. -/
theorem joinLines_cut (xs : List Text) (a b : Text) (ys : List Text) :
    joinLines (xs ++ (a ++ b) :: ys) = joinLines (xs ++ [a]) ++ joinLines (b :: ys) := by
  induction xs with
  | nil =>
    cases ys with
    | nil => simp
    | cons y ys => simp [joinLines_cons]
  | cons x xs ih =>
    have hx : joinLines (x :: (xs ++ [a])) = x ++ '\n' :: joinLines (xs ++ [a]) :=
      joinLines_cons x (by simp)
    rw [List.cons_append, joinLines_cons x (by simp), ih, List.cons_append, hx]
    simp

theorem Text.mem_joinLines {ls : List Text} {l : Text} (h : l ∈ ls) {c : Char} (hc : c ∈ l) :
    c ∈ joinLines ls := by
  induction ls with
  | nil => simp at h
  | cons m ls ih =>
    by_cases hls : ls = []
    · subst hls
      obtain rfl : l = m := by simpa using h
      exact hc
    · rw [joinLines_cons m hls]
      rcases List.mem_cons.1 h with rfl | h
      · exact List.mem_append_left _ hc
      · exact List.mem_append_right _ (List.mem_cons_of_mem _ (ih h))

theorem length_joinLines {ls : List Line} (h : ls ≠ []) :
    (joinLines (ls.map Line.text)).length + 1 = extent ls := by
  induction ls with
  | nil => exact absurd rfl h
  | cons l ls ih =>
    by_cases hls : ls = []
    · subst hls
      simp [extent, Line.length]
    · rw [List.map_cons, joinLines_cons _ (by simpa using hls)]
      have := ih hls
      simp only [List.length_append, List.length_cons, extent, Line.length]
      omega

theorem length_joinLines_concat (ls : List Line) (s : Text) :
    (joinLines (ls.map Line.text ++ [s])).length = extent ls + s.length := by
  induction ls with
  | nil => simp [extent]
  | cons l ls ih =>
    rw [List.map_cons, List.cons_append, joinLines_cons _ (by simp)]
    simp only [List.length_append, List.length_cons, ih, extent, Line.length]
    omega

namespace Buffer

theorem length_text (b : Buffer) : b.text.length = b.maxOffset := by
  have := length_joinLines b.lines_ne_nil
  simp only [text, maxOffset]
  omega

theorem rowOffset_position (b : Buffer) (n : Nat) :
    b.rowOffset (b.position n).row + (b.position n).column = min n b.maxOffset :=
  extent_locate b.lines_ne_nil n

theorem row_position_lt (b : Buffer) (n : Nat) : (b.position n).row < b.lines.length :=
  row_locate_lt b.lines_ne_nil n

theorem lineText_eq {b : Buffer} {row : Nat} {l : Line} (h : b.lines[row]? = some l) :
    b.lineText row = l.text := by
  simp [lineText, h]

/-- The row of a position is there, and its column lies in it. -/
theorem exists_line_position (b : Buffer) (n : Nat) :
    ∃ l, b.lines[(b.position n).row]? = some l ∧ (b.position n).column ≤ l.length := by
  have h := List.getElem?_eq_getElem (b.row_position_lt n)
  exact ⟨_, h, column_locate_le h⟩

theorem lines_eq_cut {b : Buffer} {row : Nat} {l : Line} (h : b.lines[row]? = some l) :
    b.lines = b.lines.take row ++ l :: b.lines.drop (row + 1) := by
  obtain ⟨hlt, rfl⟩ := List.getElem?_eq_some_iff.1 h
  rw [List.getElem_cons_drop, List.take_append_drop]

/-- The text on both sides of a column of a row. -/
theorem text_eq_cut {b : Buffer} {row : Nat} {l : Line} (h : b.lines[row]? = some l) (k : Nat) :
    b.text = joinLines ((b.lines.take row).map Line.text ++ [l.text.take k]) ++
      joinLines (l.text.drop k :: (b.lines.drop (row + 1)).map Line.text) := by
  rw [← joinLines_cut, List.take_append_drop, text]
  conv =>
    lhs
    rw [lines_eq_cut h]
  simp

theorem take_text_position (b : Buffer) (n : Nat) :
    b.text.take n =
      joinLines ((b.lines.take (b.position n).row).map Line.text ++
        [Text.slice (b.lineText (b.position n).row) 0 (b.position n).column]) := by
  obtain ⟨l, hl, hk⟩ := b.exists_line_position n
  have hn := b.rowOffset_position n
  rw [lineText_eq hl, Text.slice_zero, text_eq_cut hl (b.position n).column]
  have hlen := length_joinLines_concat (b.lines.take (b.position n).row)
    (l.text.take (b.position n).column)
  rw [List.length_take, Nat.min_eq_left (show _ ≤ l.text.length from hk)] at hlen
  by_cases hle : n ≤ b.maxOffset
  · rw [Nat.min_eq_left hle] at hn
    rw [List.take_left' (by rw [hlen]; exact hn)]
  · have htotal := congrArg List.length (text_eq_cut hl (b.position n).column)
    rw [b.length_text, List.length_append, hlen] at htotal
    have hnil : joinLines (l.text.drop (b.position n).column ::
        (b.lines.drop ((b.position n).row + 1)).map Line.text) = [] := by
      rw [← List.length_eq_zero_iff]
      simp only [rowOffset] at hn
      omega
    rw [hnil, List.append_nil, List.take_of_length_le]
    rw [hlen]
    simp only [rowOffset] at hn
    omega

theorem drop_text_position (b : Buffer) (n : Nat) :
    b.text.drop n =
      joinLines (Text.sliceFrom (b.lineText (b.position n).row) (b.position n).column ::
        (b.lines.drop ((b.position n).row + 1)).map Line.text) := by
  obtain ⟨l, hl, hk⟩ := b.exists_line_position n
  have hcut := text_eq_cut hl (b.position n).column
  have htake := b.take_text_position n
  rw [lineText_eq hl, Text.slice_zero] at htake
  rw [← htake] at hcut
  rw [lineText_eq hl, Text.sliceFrom]
  exact List.append_cancel_left ((List.take_append_drop n b.text).trans hcut)

theorem column_position_le_of_row_eq {b : Buffer} {m n : Nat} (h : m ≤ n)
    (hr : (b.position m).row = (b.position n).row) :
    (b.position m).column ≤ (b.position n).column := by
  have hm := b.rowOffset_position m
  have hn := b.rowOffset_position n
  rw [hr] at hm
  omega

/-- What lies between two offsets comes after what lies before the first. -/
theorem take_append_textBetween (b : Buffer) {m n : Nat} (h : m ≤ n) :
    b.text.take m ++ b.textBetween (b.position m) (b.position n) = b.text.take n := by
  have hrow : (b.position m).row ≤ (b.position n).row := row_locate_mono b.lines h
  obtain ⟨l, hl, -⟩ := b.exists_line_position m
  rw [b.take_text_position m, b.take_text_position n, textBetween]
  split
  · rename_i hr
    have hcol := column_position_le_of_row_eq h hr
    rw [← hr, lineText_eq hl]
    simp only [Text.slice, List.drop_zero]
    rw [← joinLines_singleton (((l.text.take (b.position n).column).drop (b.position m).column)),
      ← joinLines_cut]
    congr 3
    have := List.take_append_drop (b.position m).column (l.text.take (b.position n).column)
    rwa [List.take_take, Nat.min_eq_left hcol] at this
  · rename_i hr
    have hcut : b.lines.take (b.position n).row = b.lines.take (b.position m).row ++
        l :: (b.lines.take (b.position n).row).drop ((b.position m).row + 1) := by
      have hlt : (b.position m).row < (b.position n).row := by omega
      have hget : (b.lines.take (b.position n).row)[(b.position m).row]? = some l := by
        rw [List.getElem?_take, if_pos hlt, hl]
      obtain ⟨hlen, hval⟩ := List.getElem?_eq_some_iff.1 hget
      conv =>
        lhs
        rw [← List.take_append_drop (b.position m).row (b.lines.take (b.position n).row)]
      rw [List.take_take, Nat.min_eq_left hrow, ← List.getElem_cons_drop hlen, hval]
    conv =>
      rhs
      rw [hcut]
    rw [lineText_eq hl]
    simp only [List.map_append, List.map_cons, List.append_assoc, List.cons_append]
    conv =>
      rhs
      rw [← List.take_append_drop (b.position m).column l.text]
    rw [joinLines_cut]
    rfl

theorem slice_eq (b : Buffer) (i j : Nat) :
    b.slice i j = (b.text.take (max i j)).drop (min i j) := by
  have h := b.take_append_textBetween (Nat.le_trans (Nat.min_le_left i j) (Nat.le_max_left i j))
  rw [slice, ← h]
  by_cases hle : min i j ≤ b.text.length
  · rw [List.drop_left' (by rw [List.length_take, Nat.min_eq_left hle])]
  · have hlen := congrArg List.length h
    rw [List.length_append, List.length_take, List.length_take] at hlen
    have hnil : b.textBetween (b.position (min i j)) (b.position (max i j)) = [] := by
      rw [← List.length_eq_zero_iff]
      omega
    rw [hnil, List.append_nil, List.drop_eq_nil_of_le]
    rw [List.length_take]
    omega

/-- What lies between an offset and a later one, cut out of the text. -/
theorem slice_of_le (b : Buffer) {i j : Nat} (h : i ≤ j) :
    b.slice i j = (b.text.take j).drop i := by
  rw [slice_eq, Nat.max_eq_right h, Nat.min_eq_left h]

theorem slice_self (b : Buffer) (i : Nat) : b.slice i i = [] := by
  rw [b.slice_of_le (Nat.le_refl i)]
  simp

theorem slice_maxOffset (b : Buffer) : b.slice 0 b.maxOffset = b.text := by
  rw [b.slice_of_le (Nat.zero_le _), ← b.length_text, List.take_length, List.drop_zero]

theorem mem_text_of_mem_line {b : Buffer} {l : Line} (hl : l ∈ b.lines) {c : Char}
    (hc : c ∈ l.text) : c ∈ b.text :=
  Text.mem_joinLines (List.mem_map_of_mem hl) hc

theorem mem_text_of_mem_slice {b : Buffer} {i j : Nat} {c : Char} (hc : c ∈ b.slice i j) :
    c ∈ b.text := by
  rw [slice_eq] at hc
  exact List.mem_of_mem_take (List.mem_of_mem_drop hc)

end Buffer
end StructEdit
