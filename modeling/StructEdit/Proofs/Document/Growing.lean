import StructEdit.Proofs.Balance.Carets
import StructEdit.Proofs.Document.Work

/-!
# Growing and shrinking undo each other

A selection that grows comes to one that lies around it and is larger. This needs an argument in
each case of growing. A token lies around the caret in it. The contents of a list are found with two
motions, one from each end of the selection, and the motion forward does not stop before its start,
since a closing bracket takes the room of one character. The delimiters of a list stand outside its
contents.

Growing puts the new selection on the stack above the old one, so that one shrinking leads back, and
leaves a stack on which the old selection is the top. That is why the next shrinking leads back
again. Nothing is asked of the buffer or of the stack.
-/
namespace StructEdit

/-! ## Around a selection -/

structure Selection.Encloses (t s : Selection) : Prop where
  lower : t.lower ≤ s.lower
  upper : s.upper ≤ t.upper
  strict : t.lower < s.lower ∨ s.upper < t.upper

/-- A selection that runs forward from in front of another to behind it. -/
theorem Selection.Encloses.of_around {t s : Selection} (hleft : t.anchor ≤ s.lower)
    (hright : s.upper ≤ t.caret) (hstrict : t.anchor < s.lower ∨ s.upper < t.caret) :
    t.Encloses s := by
  have hs := s.lower_le_upper
  obtain ⟨hlow, hhigh⟩ := Selection.eq_ends_of_le (show t.anchor ≤ t.caret by omega)
  exact ⟨by omega, by omega, by omega⟩

namespace Cursor

variable {b : Buffer} {c : Cursor}

theorem start_le_stop (c : Cursor) : c.start ≤ c.stop := by
  unfold stop
  split
  · exact Nat.le_refl _
  · exact Nat.le_add_right _ _

/-- The unit at a cursor lies around a caret in the token. -/
theorem In.unit?_around {caret : Nat} {t : Selection} (h : c.In b) (hspace : c.onSpace = false)
    (hlow : c.start ≤ caret) (hhigh : caret < c.start + c.raw.length) (hmax : caret ≤ b.maxOffset)
    (ht : c.unit? caret = some t) :
    t.anchor ≤ caret ∧ caret ≤ t.caret ∧ t.anchor < t.caret ∧ t.caret ≤ b.maxOffset := by
  have hline : c.kind ≠ .lineEnd := by
    intro hk
    simp [onSpace, hk, Kind.isSpace] at hspace
  unfold unit? at ht
  split at ht
  · obtain ⟨e, he, rfl⟩ := Option.map_eq_some_iff.1 ht
    have hein := h.next.forwardList? he
    have hnext := (h.next_of_kind hline).2
    have hstop := h.stop_eq hline
    have hle := h.next.start_mono hein (before_length_le_forwardList? he)
    have hroom := e.start_le_stop
    refine ⟨hlow, ?_, ?_, hein.stop_le⟩ <;> dsimp only <;> omega
  · dsimp only at ht
    split at ht
    · rename_i hf
      obtain rfl := Option.some.inj ht
      have hlt := Nat.lt_of_lt_of_le (h.backwardSexp_lt hf) hlow
      exact ⟨Nat.le_of_lt hlt, Nat.le_refl _, hlt, hmax⟩
    · simp at ht
  · obtain rfl := Option.some.inj ht
    have hstop := h.stop_eq hline
    refine ⟨hlow, ?_, ?_, h.stop_le⟩ <;> dsimp only <;> omega

end Cursor

namespace Buffer

variable {b : Buffer} {s t : Selection} {i j : Nat}

/-- The contents of a list lie around the range that they were looked for from. -/
theorem contentsAround?_around (hj : j ≤ b.maxOffset) (h : b.contentsAround? i j = some t) :
    t.anchor ≤ i ∧ j ≤ t.caret ∧ t.caret ≤ b.maxOffset := by
  unfold contentsAround? at h
  split at h
  · rename_i o e ho he
    obtain rfl := Option.some.inj h
    have hi := b.in_cursorAt i
    have hin := b.in_cursorAt j
    have hback := (hi.backwardList? ho).start_mono hi (Cursor.before_length_backwardList?_le ho)
    exact ⟨Nat.le_trans hback (b.start_cursorAt_le i), le_forwardList? hj he,
      (hin.forwardList? he).start_le⟩
  · simp at h

/-- A list lies around its contents, with room on both sides. -/
theorem listOf?_around (hs : s.caret ≤ b.maxOffset) (h : b.listOf? s = some t) :
    t.anchor < s.anchor ∧ s.caret < t.caret ∧ t.caret ≤ b.maxOffset := by
  unfold listOf? at h
  dsimp only at h
  split at h
  · rename_i o ho
    split at h
    · rename_i hk
      obtain rfl := Option.some.inj h
      have hin := b.in_cursorAt s.anchor
      have hend := b.in_cursorAt s.caret
      have hout := (hin.backwardUpList? ho).start_lt hin (Cursor.backwardUpList?_lt ho)
      have hstop : s.caret < (b.cursorAt s.caret).stop := by
        rw [hend.stop_eq (by simp [hk])]
        exact lt_cursorAt hs
      exact ⟨Nat.lt_of_lt_of_le hout (b.start_cursorAt_le s.anchor), hstop, hend.stop_le⟩
    · simp at h
  · simp at h

/-- Every way to grow leads to a larger selection around the one before, inside the buffer. -/
theorem grown?_encloses (hs : s.Within b.maxOffset) (h : b.grown? s = some t) :
    t.Encloses s ∧ t.Within b.maxOffset := by
  have hlower := s.lower_le_upper
  have hupper : s.upper ≤ b.maxOffset := Nat.max_le.2 hs
  unfold grown? at h
  dsimp only at h
  split at h
  · rename_i hcaret
    obtain ⟨hempty, hspace⟩ := hcaret
    obtain ⟨hlow, hhigh⟩ := Selection.eq_caret_of_isEmpty hempty
    rw [hlow] at hspace h
    obtain ⟨hleft, hright, hlt, hmax⟩ := (b.in_cursorAt s.caret).unit?_around hspace
      (b.start_cursorAt_le s.caret) (lt_cursorAt hs.2) hs.2 h
    exact ⟨.of_around (by omega) (by omega) (by omega), by omega, hmax⟩
  · split at h
    · simp at h
    · rename_i contents hcontents
      obtain ⟨hleft, hright, hmax⟩ := contentsAround?_around hupper hcontents
      obtain ⟨hlow, hhigh⟩ := Selection.eq_ends_of_le (show contents.anchor ≤ contents.caret by omega)
      split at h
      · rename_i hsame
        obtain ⟨hfront, hback, hmax'⟩ := listOf?_around hmax h
        exact ⟨.of_around (by omega) (by omega) (by omega), by omega, hmax'⟩
      · rename_i hother
        obtain rfl := Option.some.inj h
        exact ⟨.of_around hleft hright (by omega), by omega, hmax⟩

end Buffer

/-! ## The stack -/

namespace Document

variable {d : Document}

/-- The document with a stack that ends in its selection, on which growing goes on. -/
def restack (d : Document) : Document :=
  if d.growth.head? = some d.selection then d else { d with growth := [d.selection] }

theorem selection_restack (d : Document) : d.restack.selection = d.selection := by
  unfold restack
  split <;> rfl

theorem buffer_restack (d : Document) : d.restack.buffer = d.buffer := by
  unfold restack
  split <;> rfl

theorem exists_growth_restack (d : Document) : ∃ rest, d.restack.growth = d.selection :: rest := by
  unfold restack
  split
  · rename_i hhead
    exact List.head?_eq_some_iff.1 hhead
  · exact ⟨[], rfl⟩

/-- The document that growing leads to, once it has found `s`. -/
def grownTo (d : Document) (s : Selection) : Document :=
  let e := d.restack.select s
  { e with growth := e.selection :: e.growth }

theorem selection_grownTo (d : Document) (s : Selection) :
    (d.grownTo s).selection = s.clamp d.buffer.maxOffset := by
  rw [← buffer_restack]
  rfl

theorem grow_eq (d : Document) :
    d.grow = match d.buffer.grown? d.selection with
      | none => d.restack
      | some s => d.grownTo s := by
  have hgrow : d.grow = match d.restack.buffer.grown? d.selection with
      | none => d.restack
      | some s => d.grownTo s := rfl
  rwa [buffer_restack] at hgrow

/-- Where growing changes the selection, it has found a larger one in the buffer. -/
theorem exists_grown (h : d.grow.selection ≠ d.selection) :
    ∃ s, d.buffer.grown? d.selection = some s ∧ d.grow = d.grownTo s := by
  have heq := d.grow_eq
  cases hg : d.buffer.grown? d.selection with
  | none =>
    rw [hg] at heq
    rw [heq, selection_restack] at h
    exact absurd rfl h
  | some s =>
    rw [hg] at heq
    exact ⟨s, rfl, heq⟩

theorem Fits.grow (hf : d.Fits) : d.grow.Fits := by
  have heq := d.grow_eq
  cases hg : d.buffer.grown? d.selection with
  | none =>
    rw [hg] at heq
    rw [heq, Fits, maxOffset, buffer_restack, selection_restack]
    exact hf
  | some s =>
    rw [hg] at heq
    rw [heq]
    exact d.restack.fits_select s

/-- One step of growing and one of shrinking. -/
theorem shrink_grow (hf : d.Fits) (h : d.grow.selection ≠ d.selection) :
    d.grow.shrink = d.restack := by
  obtain ⟨s, -, heq⟩ := exists_grown h
  obtain ⟨rest, hrest⟩ := d.exists_growth_restack
  have hgrowth : d.grow.growth = d.grow.selection :: d.selection :: rest := by
    rw [heq]
    exact congrArg (List.cons _) hrest
  have hback : d.grow.shrink = { d.grow with growth := d.selection :: rest }.select d.selection := by
    rw [shrink, hgrowth]
    exact if_pos rfl
  have hsame : { d.grow with growth := d.selection :: rest }.select d.selection =
      d.restack.select d.selection := by
    rw [heq, ← hrest]
    rfl
  have hwithin : d.selection.Within d.restack.buffer.maxOffset := by
    rw [buffer_restack]
    exact hf
  rw [hback, hsame]
  show { d.restack with selection := d.selection.clamp d.restack.buffer.maxOffset } = d.restack
  rw [hwithin.clamp_eq, ← selection_restack d]

/-- A selection that has grown stands on top of the stack. -/
theorem restack_grow (h : d.grow.selection ≠ d.selection) : d.grow.restack = d.grow := by
  obtain ⟨s, -, heq⟩ := exists_grown h
  rw [heq, restack]
  exact if_pos rfl

end Document

/-! ## Rows of commands -/

namespace Command

theorem fits_runAll_grow {d : Document} (hf : d.Fits) (n : Nat) :
    (runAll (List.replicate n .grow) d).Fits := by
  induction n with
  | zero => exact hf
  | succ n ih =>
    rw [runAll_replicate_succ]
    exact ih.grow

/-- A row of shrinkings leads back along a row of growings that all changed the selection. -/
theorem selection_shrink_grow {d : Document} (hf : d.Fits) (k : Nat)
    (h : ∀ i < k, (runAll (List.replicate (i + 1) .grow) d).selection ≠
      (runAll (List.replicate i .grow) d).selection) :
    ∀ i ≤ k, (runAll (List.replicate i .shrink) (runAll (List.replicate k .grow) d)).selection =
      (runAll (List.replicate (k - i) .grow) d).selection := by
  induction k with
  | zero =>
    intro i hi
    obtain rfl : i = 0 := Nat.le_zero.1 hi
    rfl
  | succ k ih =>
    intro i hi
    cases i with
    | zero => rfl
    | succ i =>
      have hlast := h k (Nat.lt_succ_self k)
      have hback := ih (fun m hm => h m (Nat.lt_succ_of_lt hm)) i (Nat.le_of_succ_le_succ hi)
      rw [runAll_replicate_succ] at hlast
      have hstep : runAll (List.replicate (i + 1) .shrink) (runAll (List.replicate (k + 1) .grow) d) =
          runAll (List.replicate i .shrink) (runAll (List.replicate k .grow) d).restack := by
        rw [runAll_replicate_succ .grow, ← Document.shrink_grow (fits_runAll_grow hf k) hlast]
        rfl
      rw [hstep, Nat.succ_sub_succ]
      cases k with
      | zero =>
        obtain rfl : i = 0 := by omega
        exact Document.selection_restack _
      | succ k =>
        have hbefore := h k (by omega)
        have hagain : (runAll (List.replicate (k + 1) .grow) d).restack =
            runAll (List.replicate (k + 1) .grow) d := by
          rw [runAll_replicate_succ] at hbefore ⊢
          exact Document.restack_grow hbefore
        rw [hagain, hback]

end Command

/-- In any document, with any selection in it and any stack: where growing changes the selection, the
new one lies around the old one and is larger. And after a row of growings that all changed the
selection, a row of as many shrinkings leads back along the selections in between to the one from
before the first, with its direction. -/
theorem grow_encloses_and_shrink_undoes (d : Document) (s : Selection) (growth : List Selection) :
    let e : Document := { d.select s with growth := growth }
    (e.grow.selection ≠ e.selection → e.grow.selection.Encloses e.selection) ∧
    ∀ k, (∀ i < k, (Command.runAll (List.replicate (i + 1) .grow) e).selection ≠
        (Command.runAll (List.replicate i .grow) e).selection) →
      ∀ i ≤ k, (Command.runAll (List.replicate i .shrink)
          (Command.runAll (List.replicate k .grow) e)).selection =
        (Command.runAll (List.replicate (k - i) .grow) e).selection := by
  intro e
  have hf : e.Fits := d.fits_select s
  refine ⟨fun h => ?_, Command.selection_shrink_grow hf⟩
  obtain ⟨t, ht, heq⟩ := Document.exists_grown h
  obtain ⟨hencloses, hwithin⟩ := Buffer.grown?_encloses hf ht
  have hselection : e.grow.selection = t := by
    rw [heq, Document.selection_grownTo]
    exact hwithin.clamp_eq
  rwa [hselection]

/-- From the caret in `(a (b|c) d)`, over the token, its list, and the contents of the outer list to
the whole of it, and back. -/
theorem grow_encloses_and_shrink_undoes_nested :
    let d := Command.runAll [.setCaret 5] (.ofText "(a (bc) d)".toList)
    let grown := fun k => (Command.runAll (List.replicate k .grow) d).selection
    (List.range 5).map grown = [⟨5, 5⟩, ⟨4, 6⟩, ⟨3, 7⟩, ⟨1, 9⟩, ⟨0, 10⟩] ∧
      d.grow.selection.Encloses d.selection ∧
      ∀ i ≤ 4, (Command.runAll (List.replicate i .shrink)
        (Command.runAll (List.replicate 4 .grow) d)).selection = grown (4 - i) := by
  intro d grown
  have hd : { d.select d.selection with growth := d.growth } = d := by rfl
  have h := grow_encloses_and_shrink_undoes d d.selection d.growth
  rw [hd] at h
  exact ⟨by decide +kernel, h.1 (by decide +kernel), h.2 4 (by decide +kernel)⟩
end StructEdit
