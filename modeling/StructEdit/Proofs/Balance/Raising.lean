import StructEdit.Proofs.Balance.Edits

/-!
# Raising in balanced text

Raising puts an expression in the place of its list, and is right when the lists that the
expression leaves, if any, are those that come to be open there.
-/
namespace StructEdit

namespace Buffer

/-- The lists that the expression closes, and those open behind the outer list, are the ones open in
front of it. Where the expression starts in no code, it can be read as code there. -/
def KeepsRaise (b : Buffer) (i : Nat) : Prop :=
  let c := (b.cursorAt i).forwardSpace true
  let r := c.forwardSexp true
  let o := c.backwardList?.getD c
  let e := r.cursor.forwardList?.getD r.cursor
  r.found = true → o.prevKind = .opening ∧ e.kind = .closing →
    if b.text.placeAt c.start = .code then
      b.text.listsAt o.prev.start =
        b.text.closed c.start r.cursor.start ++ b.text.listsAt e.stop
    else
      Text.Closes .code (b.text.listsAt o.prev.start)
        (b.slice c.start r.cursor.start ++ b.text.drop e.stop)

variable {b : Buffer}

theorem text_replace_slice {i j m n : Nat} (hij : i ≤ j) (hmn : m ≤ n) :
    (b.replace i j (b.slice m n)).text = b.text.take i ++
      Text.normalizeBreaks (Text.normalizeBreaks ((b.text.take n).drop m)) ++ b.text.drop j := by
  rw [text_replace, Nat.min_eq_left hij, Nat.max_eq_right hij, b.slice_of_le hmn]

/-- The end of a list that a motion was still in does not lie at the end of the text. -/
theorem code_of_closing_ahead {r e : Cursor} (hr : r.In b) (he : e.In b)
    (hle : r.start ≤ e.start) (hk : e.kind = .closing)
    (hends : Cursor.Ends (b.text.placeAt r.start) r) : b.text.placeAt r.start = .code := by
  rcases hends with hcode | ⟨-, hnil⟩
  · exact hcode
  · have hmax := hr.start_of_after_nil hnil
    have hemax := he.start_le
    obtain rfl := hr.eq_of_start he (by omega)
    have hlast := hr.kind_last r.here (by rw [hnil]; rfl)
    have hk' : r.here.kind = .closing := hk
    rw [hk'] at hlast
    simp at hlast

theorem Nested.raise_iff (hb : b.Nested) {c o e : Cursor} (hc : c.In b) (ho : o.In b) (he : e.In b)
    (hoc : o.start ≤ c.start) (hre : (c.forwardSexp true).cursor.start ≤ e.start)
    (hko : o.prevKind = .opening) (hke : e.kind = .closing) :
    Text.Balanced (b.replace o.prev.start e.stop
        (b.slice c.start (c.forwardSexp true).cursor.start)).text ↔
      if b.text.placeAt c.start = .code then
        b.text.listsAt o.prev.start =
          b.text.closed c.start (c.forwardSexp true).cursor.start ++ b.text.listsAt e.stop
      else
        Text.Closes .code (b.text.listsAt o.prev.start)
          (b.slice c.start (c.forwardSexp true).cursor.start ++ b.text.drop e.stop) := by
  have hbal := hb.balanced
  have hrin := hc.forwardSexp true
  obtain ⟨hcr, hends, l, -, hl, -⟩ := hc.walk_forwardSexp hb true
  have hcode := code_of_closing_ahead hrin he hre hke hends
  obtain ⟨hpin, hpk, -, hpstop, -⟩ := ho.behind (by rw [hko]; simp)
  obtain ⟨x, -, -, hopen⟩ := hpin.opening hb.phase (hpk.trans hko)
  obtain ⟨y, -, -, hclose⟩ := he.closing hb.phase hke
  have hle : o.prev.start ≤ e.stop := by
    have h₁ := hopen.le
    have h₂ := hclose.le
    omega
  rw [text_replace_slice hle hcr]
  split
  · rename_i hp
    have hbetween := Text.piece_between b.text hcr
    rw [hp, ← hopen.start, hcode] at hbetween
    rw [hbal.splice_iff hbetween.normalizeBreaks.normalizeBreaks (Or.inl hclose.stop.symm),
      nest_of_closes hl, (hbal.lists_closed hcr hl).1]
  · rw [b.slice_of_le hcr]
    generalize (b.text.take (c.forwardSexp true).cursor.start).drop c.start = raised
    have hpiece : Piece (b.text.placeAt o.prev.start) raised (Place.code.fences raised)
        (Place.code.after raised) := by
      rw [hopen.start]
      exact ⟨rfl, rfl⟩
    have hpiece' : Piece .code raised (Place.code.fences raised) (Place.code.after raised) :=
      ⟨rfl, rfl⟩
    rw [hbal.splice_iff_closes hpiece.normalizeBreaks.normalizeBreaks,
      Text.closes_append hpiece']

end Buffer

namespace Document

variable {d : Document}

theorem balanced_raise_iff (hb : d.buffer.Nested) (hs : d.selection.isEmpty = true) :
    d.raise.buffer.text.Balanced ↔ d.buffer.KeepsRaise d.caret := by
  have hcursor : d.buffer.cursorAt d.caret = d.cursor := rfl
  have hc : (d.cursor.forwardSpace true).In d.buffer :=
    (d.buffer.in_cursorAt d.caret).forwardSpace true
  simp only [raise, Buffer.KeepsRaise, hcursor, hs, Bool.true_eq_false, false_or]
  generalize d.cursor.forwardSpace true = c at hc
  have hrin := hc.forwardSexp true
  by_cases hf : (c.forwardSexp true).found = true
  · have ho : (c.backwardList?.getD c).In d.buffer ∧ (c.backwardList?.getD c).start ≤ c.start := by
      cases ho : c.backwardList? with
      | none => exact ⟨hc, Nat.le_refl _⟩
      | some o => exact ⟨hc.backwardList? ho, (hc.walk_backwardList? hb ho).1⟩
    have he : ((c.forwardSexp true).cursor.forwardList?.getD (c.forwardSexp true).cursor).In
          d.buffer ∧
        (c.forwardSexp true).cursor.start ≤
          ((c.forwardSexp true).cursor.forwardList?.getD (c.forwardSexp true).cursor).start := by
      cases he : (c.forwardSexp true).cursor.forwardList? with
      | none => exact ⟨hrin, Nat.le_refl _⟩
      | some e => exact ⟨hrin.forwardList? he, (hrin.walk_forwardList? hb he).1⟩
    generalize c.backwardList?.getD c = o at ho
    generalize (c.forwardSexp true).cursor.forwardList?.getD (c.forwardSexp true).cursor = e at he
    simp only [hf, Bool.true_eq_false, ↓reduceIte, forall_const]
    by_cases hk : o.prevKind = .opening ∧ e.kind = .closing
    · rw [if_pos hk, buffer_perform, Buffer.text_flush, buffer_setCaret, buffer_splice,
        buffer_begun]
      simp only [hk, and_self, forall_const]
      exact hb.raise_iff hc ho.1 he.1 ho.2 he.2 hk.1 hk.2
    · rw [if_neg hk]
      exact iff_of_true hb.balanced fun h => absurd h hk
  · have hf' : (c.forwardSexp true).found = false := by simpa using hf
    simp only [hf', ↓reduceIte, Bool.false_eq_true, false_implies, iff_true]
    exact hb.balanced

end Document
end StructEdit
