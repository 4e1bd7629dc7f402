import StructEdit.Buffer.Flush
import StructEdit.Proofs.Buffer.Offsets
import StructEdit.Proofs.Text.Breaks

/-!
# What a replacement does to the text

`replace` cuts the lines at two positions and puts freshly scanned lines between the
two ends. On the text this is a splice: `text_replace` says which characters stay and
which are new. The new ones are the given text with its breaks normalised twice, once
on the way in and once by the split into lines.

Lines never come to hold a `\n`, whatever is put in.
-/
namespace StructEdit
open Text

/-! ## Wrapping the pieces -/

theorem length_wrapPieces_go (right : Text) (ps : List Text) :
    (wrapPieces.go right ps).length = ps.length := by
  fun_induction wrapPieces.go right ps with
  | case1 => rfl
  | case2 => rfl
  | case3 p ps _ ih => simp [ih]

theorem length_wrapPieces (left right : Text) {ps : List Text} (h : ps ≠ []) :
    (wrapPieces left right ps).length = ps.length := by
  fun_cases wrapPieces left right ps with
  | case1 => exact absurd rfl h
  | case2 => rfl
  | case3 p ps _ => simp [length_wrapPieces_go]

theorem joinLines_wrapPieces_go (right : Text) {ps : List Text} (h : ps ≠ []) (ys : List Text) :
    joinLines (wrapPieces.go right ps ++ ys) = joinLines ps ++ joinLines (right :: ys) := by
  fun_induction wrapPieces.go right ps with
  | case1 => exact absurd rfl h
  | case2 p => exact joinLines_cut [] p right ys
  | case3 p ps hps ih =>
    have hne : ps ≠ [] := fun he => hps (by rw [he])
    have hgo : wrapPieces.go right ps ≠ [] := by
      rw [← List.length_pos_iff, length_wrapPieces_go, List.length_pos_iff]
      exact hne
    rw [List.cons_append, joinLines_cons p (by simp [hgo]), ih hne, joinLines_cons p hne]
    simp

/-- Between what stands in front and what stands behind, the pieces are joined. -/
theorem joinLines_wrapPieces (left right : Text) {ps : List Text} (h : ps ≠ [])
    (xs ys : List Text) :
    joinLines (xs ++ wrapPieces left right ps ++ ys) =
      joinLines (xs ++ [left]) ++ joinLines ps ++ joinLines (right :: ys) := by
  fun_cases wrapPieces left right ps with
  | case1 => exact absurd rfl h
  | case2 p =>
    have hr := joinLines_cut [] p right ys
    simp only [List.nil_append, joinLines_singleton] at hr
    rw [List.append_assoc, List.singleton_append, List.append_assoc left p right, joinLines_cut, hr]
    simp
  | case3 p ps hps =>
    have hne : ps ≠ [] := fun he => hps (by rw [he])
    have hgo := joinLines_wrapPieces_go right hne ys
    have hgone : wrapPieces.go right ps ++ ys ≠ [] := by
      simp only [ne_eq, List.append_eq_nil_iff, not_and]
      intro he
      exact absurd he (by rw [← List.length_eq_zero_iff, length_wrapPieces_go]; simp [hne])
    rw [List.append_assoc, List.cons_append, joinLines_cut, joinLines_cons p hgone, hgo,
      joinLines_cons p hne]
    simp

theorem not_mem_wrapPieces_go {right : Text} {ps : List Text} (hr : '\n' ∉ right)
    (hps : ∀ p ∈ ps, '\n' ∉ p) : ∀ l ∈ wrapPieces.go right ps, '\n' ∉ l := by
  fun_induction wrapPieces.go right ps with
  | case1 => simp
  | case2 p => simpa using ⟨hps p (by simp), hr⟩
  | case3 p ps _ ih =>
    intro l hl
    rcases List.mem_cons.1 hl with rfl | hl
    · exact hps _ List.mem_cons_self
    · exact ih (fun q hq => hps q (List.mem_cons_of_mem _ hq)) l hl

theorem not_mem_wrapPieces {left right : Text} {ps : List Text} (hl : '\n' ∉ left)
    (hr : '\n' ∉ right) (hps : ∀ p ∈ ps, '\n' ∉ p) : ∀ l ∈ wrapPieces left right ps, '\n' ∉ l := by
  fun_cases wrapPieces left right ps with
  | case1 => simpa using ⟨hl, hr⟩
  | case2 p => simpa using ⟨hl, hps p (by simp), hr⟩
  | case3 p ps _ =>
    intro l hm
    rcases List.mem_cons.1 hm with rfl | hm
    · simpa using ⟨hl, hps p (by simp)⟩
    · exact not_mem_wrapPieces_go hr (fun q hq => hps q (List.mem_cons_of_mem _ hq)) l hm

namespace Buffer

/-! ## Marks -/

@[simp] theorem lines_markDirty (b : Buffer) (row : Nat) : (b.markDirty row).lines = b.lines := by
  unfold markDirty
  split <;> rfl

/-- The lines that a replacement scans. -/
def freshLines (b : Buffer) (i j : Nat) (s : Text) : List Line :=
  let p := b.position (min i j)
  let q := b.position (max i j)
  Line.scanAll (b.modeAt p.row)
    (wrapPieces (Text.slice (b.lineText p.row) 0 p.column)
      (Text.sliceFrom (b.lineText q.row) q.column) (splitLines (normalizeBreaks s)))

theorem lines_replace (b : Buffer) (i j : Nat) (s : Text) :
    (b.replace i j s).lines = b.lines.take (b.position (min i j)).row ++ b.freshLines i j s ++
      b.lines.drop ((b.position (max i j)).row + 1) := by
  simp only [replace]
  split <;> simp only [lines_markDirty] <;> rfl

theorem length_freshLines (b : Buffer) (i j : Nat) (s : Text) :
    (b.freshLines i j s).length = (splitLines (normalizeBreaks s)).length := by
  rw [freshLines, Line.length_scanAll, length_wrapPieces _ _ (splitLines_ne_nil _)]

theorem row_position_le (b : Buffer) (i j : Nat) :
    (b.position (min i j)).row ≤ (b.position (max i j)).row :=
  row_locate_mono b.lines (by omega)

theorem length_freshLines_pos (b : Buffer) (i j : Nat) (s : Text) :
    0 < (b.freshLines i j s).length := by
  rw [length_freshLines, List.length_pos_iff]
  exact splitLines_ne_nil _

/-- The lines that a replacement scans stand in the buffer. -/
theorem row_add_freshLines_le (b : Buffer) (i j : Nat) (s : Text) :
    (b.position (min i j)).row + (b.freshLines i j s).length ≤ (b.replace i j s).lines.length := by
  have hrow := b.row_position_lt (min i j)
  rw [lines_replace, List.length_append, List.length_append, List.length_take]
  omega

/-! ## The text -/

/-- A replacement is a splice of the text. -/
theorem text_replace (b : Buffer) (i j : Nat) (s : Text) :
    (b.replace i j s).text =
      b.text.take (min i j) ++ normalizeBreaks (normalizeBreaks s) ++ b.text.drop (max i j) := by
  rw [b.take_text_position, b.drop_text_position, ← joinLines_splitLines,
    ← joinLines_wrapPieces _ _ (splitLines_ne_nil _), text, lines_replace, freshLines]
  simp

/-- A replacement that needs no change of its breaks puts in the text as it is. -/
theorem text_replace_of_clean (b : Buffer) (i j : Nat) {s : Text} (h : normalizeBreaks s = s) :
    (b.replace i j s).text = b.text.take (min i j) ++ s ++ b.text.drop (max i j) := by
  rw [text_replace, h, h]

/-- A new buffer holds the text it is made of with its breaks normalised. -/
theorem text_ofText {s : Text} (h : ReturnsInBreaks s) : (ofText s).text = normalizeBreaks s := by
  have hclean := normalizeBreaks_of_not_mem_return (not_mem_return_normalizeBreaks h)
  have hreplace := text_replace_of_clean .empty 0 0 hclean
  exact (text_flush _).trans (hreplace.trans (by simp [text, empty]))

theorem maxOffset_replace (b : Buffer) (i j : Nat) (s : Text) :
    (b.replace i j s).maxOffset = min (min i j) b.maxOffset +
      (normalizeBreaks (normalizeBreaks s)).length + (b.maxOffset - max i j) := by
  rw [← length_text, text_replace]
  simp only [List.length_append, List.length_take, List.length_drop, b.length_text]

/-- The place of a replacement is still there after it. -/
theorem le_maxOffset_replace (b : Buffer) {i j : Nat} (s : Text) {n : Nat} (hn : n ≤ min i j)
    (hmax : n ≤ b.maxOffset) : n ≤ (b.replace i j s).maxOffset := by
  rw [maxOffset_replace]
  omega

/-- An insertion makes no offset invalid. -/
theorem maxOffset_le_insert (b : Buffer) (i : Nat) (s : Text) :
    b.maxOffset ≤ (b.replace i i s).maxOffset := by
  rw [maxOffset_replace, Nat.min_self, Nat.max_self]
  omega

/-! ## Lines without breaks -/

/-- No line holds a break. -/
def Unbroken (b : Buffer) : Prop := ∀ l ∈ b.lines, '\n' ∉ l.text

theorem unbroken_iff (b : Buffer) : b.Unbroken ↔ ∀ s ∈ b.lines.map Line.text, '\n' ∉ s := by
  simp [Unbroken]

theorem unbroken_empty : Buffer.empty.Unbroken := by
  simp [Unbroken, Buffer.empty]

theorem Unbroken.lineText {b : Buffer} (h : b.Unbroken) (row : Nat) : '\n' ∉ b.lineText row := by
  unfold Buffer.lineText
  cases hl : b.lines[row]? with
  | none => simp
  | some l => exact h l (List.mem_of_getElem? hl)

theorem Unbroken.replace {b : Buffer} (h : b.Unbroken) (i j : Nat) (s : Text) :
    (b.replace i j s).Unbroken := by
  rw [unbroken_iff] at h ⊢
  rw [lines_replace, freshLines, List.map_append, List.map_append, Line.map_text_scanAll]
  intro t ht
  rcases List.mem_append.1 ht with ht | ht
  · rcases List.mem_append.1 ht with ht | ht
    · rw [List.map_take] at ht
      exact h t (List.mem_of_mem_take ht)
    · refine not_mem_wrapPieces ?_ ?_ (fun p hp => not_mem_of_mem_splitLines hp) t ht
      · exact fun hm => (b.unbroken_iff.2 h).lineText _ (List.mem_of_mem_take hm)
      · exact fun hm => (b.unbroken_iff.2 h).lineText _ (List.mem_of_mem_drop hm)
  · rw [List.map_drop] at ht
    exact h t (List.mem_of_mem_drop ht)

theorem Unbroken.flush {b : Buffer} (h : b.Unbroken) : b.flush.Unbroken := by
  rw [unbroken_iff] at h ⊢
  simpa [Buffer.flush] using h

theorem Unbroken.ofText (s : Text) : (Buffer.ofText s).Unbroken :=
  (unbroken_empty.replace 0 0 (normalizeBreaks s)).flush

end Buffer
end StructEdit
