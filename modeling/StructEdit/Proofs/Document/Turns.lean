import StructEdit.Proofs.Document.Performing

/-!
# What a command can do

Outside of any transaction there are five kinds of turns: to look elsewhere, which changes
the selection and what else is seen but no text and no history; to perform some work; to
do so after the last step was sealed; to undo; and to redo. Every command takes one turn.
Invariants of documents are proved of turns, and runs of commands are runs of turns. The
first three kinds are acts: every command but undo and redo is one.
-/
namespace StructEdit

inductive Act (strict : Prop) (d : Document) : Document → Prop
  | look {e : Document} : e.buffer = d.buffer → e.history = d.history →
      e.recording = d.recording → e.Fits → Act strict d e
  | perform {e : Document} : d.Performs strict e → Act strict d e
  | afterSeal {e : Document} : d.sealHistory.Performs strict e → Act strict d e

inductive Turn (strict : Prop) (d : Document) : Document → Prop
  | act {e : Document} : Act strict d e → Turn strict d e
  | undo : Turn strict d d.undo
  | redo : Turn strict d d.redo

/-- The texts that a command is given. -/
def Command.texts : Command → List Text
  | .insert text | .replaceAll text | .openPair text | .closeList text => [text]
  | .wrap opener closer => [opener, closer]
  | _ => []

namespace Document

variable {strict : Prop} {d : Document}

/-! ## Looking elsewhere -/

theorem act_self (hd : d.Fits) : Act strict d d := .look rfl rfl rfl hd

theorem act_select (s : Selection) : Act strict d (d.select s) :=
  .look rfl rfl rfl (d.fits_select s)

theorem act_setCaret (offset : Nat) : Act strict d (d.setCaret offset) :=
  act_select (.point offset)

theorem act_setAnchor (hd : d.Fits) (offset : Nat) : Act strict d (d.setAnchor offset) :=
  .look rfl rfl rfl ⟨Nat.min_le_right _ _, hd.2⟩

theorem act_stretchTo (hd : d.Fits) (offset : Nat) : Act strict d (d.stretchTo offset) :=
  .look rfl rfl rfl ⟨hd.1, Nat.min_le_right _ _⟩

theorem act_moveTo (hd : d.Fits) (offset : Nat) (clear : Bool) :
    Act strict d (d.moveTo offset clear) := by
  cases clear with
  | false => exact act_stretchTo hd offset
  | true => exact .look rfl rfl rfl ⟨Nat.min_le_right _ _, Nat.min_le_right _ _⟩

theorem act_keepColumn_moveTo (hd : d.Fits) (offset : Nat) (clear : Bool) :
    Act strict d (d.moveTo offset clear).keepColumn := by
  cases clear with
  | false => exact .look rfl rfl rfl ⟨hd.1, Nat.min_le_right _ _⟩
  | true => exact .look rfl rfl rfl ⟨Nat.min_le_right _ _, Nat.min_le_right _ _⟩

theorem act_left (hd : d.Fits) (clear : Bool) : Act strict d (d.left clear) := by
  simp only [left]
  split
  · exact .look rfl rfl rfl (d.fits_setCaret d.selection.lower)
  · exact act_keepColumn_moveTo hd _ _

theorem act_right (hd : d.Fits) (clear : Bool) : Act strict d (d.right clear) := by
  simp only [right]
  split
  · exact .look rfl rfl rfl (d.fits_setCaret d.selection.upper)
  · exact act_keepColumn_moveTo hd _ _

theorem act_up (hd : d.Fits) (clear : Bool) : Act strict d (d.up clear) := by
  unfold up
  split <;> exact act_moveTo hd _ _

theorem act_down (hd : d.Fits) (clear : Bool) : Act strict d (d.down clear) := by
  simp only [down]
  split <;> exact act_moveTo hd _ _

theorem act_selectAll : Act strict d d.selectAll :=
  .look rfl rfl rfl ⟨Nat.zero_le _, Nat.le_refl _⟩

theorem act_grow (hd : d.Fits) : Act strict d d.grow := by
  simp only [grow]
  split
  · split
    · exact act_self hd
    · exact .look rfl rfl rfl hd
  · rename_i s _
    split
    · exact .look rfl rfl rfl (d.fits_select s)
    · exact .look rfl rfl rfl (d.fits_select s)

theorem act_shrink (hd : d.Fits) : Act strict d d.shrink := by
  unfold shrink
  split
  · exact act_self hd
  · split
    · split
      · exact .look rfl rfl rfl (d.fits_select _)
      · exact .look rfl rfl rfl hd
    · exact .look rfl rfl rfl hd

/-! ## Delimiters -/

theorem act_openPair {pair : Text} (hd : d.Fits) (hs : strict → pair.ReturnsInBreaks) :
    Act strict d (d.openPair pair) := by
  refine .perform (Works.performs fun e he hb => ?_)
  have hf := fits_of_toPane he hd
  exact ⟨((performs_insert hf hs).work hb hf).1.setCaret _, fits_setCaret _ _⟩

theorem act_closeList {closer : Text} (hd : d.Fits) (hs : strict → closer.ReturnsInBreaks) :
    Act strict d (d.closeList closer) := by
  have hin := (d.buffer.in_cursorAt d.caret).forwardSpace false
  simp only [closeList]
  split
  · exact .perform (performs_splice (Nat.le_trans (Nat.min_le_left _ _) hd.2) fun _ => trivial)
  · split
    · exact act_setCaret _
    · refine .perform (performs_splice ?_ hs)
      rw [Nat.min_self]
      exact (hin.forwardSexps true).stop_le

theorem act_deletePair {start : Nat} (count : Nat) (hs : start ≤ d.maxOffset) :
    Act strict d (d.deletePair start count) := by
  refine .perform (Works.performs fun e he _ => ?_)
  rw [← maxOffset_of_toPane he] at hs
  exact ⟨(Work.refl.deleteAt count _ _ hs).setCaret start, fits_setCaret _ _⟩

theorem act_backspacePair (hd : d.Fits) : Act strict d d.backspacePair := by
  have hcaret : ∀ n, d.caret - n ≤ d.maxOffset := fun n => Nat.le_trans (Nat.sub_le _ _) hd.2
  simp only [backspacePair]
  split
  · exact .perform (performs_backspace hd)
  split
  · exact act_setCaret _
  split
  · exact act_deletePair 2 (hcaret 2)
  split
  · exact act_deletePair 2 (hcaret 1)
  split
  · exact act_setCaret _
  · exact .perform (performs_backspace hd)

/-- A pair lies in the text, so the caret before it stays in the text when the pair goes. -/
theorem performs_deletePairAhead (hempty : d.selection.isEmpty = true)
    (hpair : isEmptyPair (d.buffer.sliceWithin d.caret (d.caret + 2)) = true)
    (before after : Option Selection) :
    Performs strict d (d.perform fun e => e.deleteAt d.caret 2 before after) := by
  have hroom : d.caret + 2 ≤ d.maxOffset := by
    unfold Buffer.sliceWithin at hpair
    split at hpair
    · simp [isEmptyPair] at hpair
    · rename_i hle
      rw [maxOffset]
      omega
  have hpoint : d.selection.anchor = d.caret := by
    simpa [Selection.isEmpty, caret] using hempty
  refine Works.performs fun e he _ => ?_
  have hmax := maxOffset_of_toPane he
  have hsel : e.selection = d.selection := congrArg Pane.selection he
  refine ⟨Work.refl.deleteAt 2 before after (by omega), ?_⟩
  have hleft : d.caret ≤ (e.deleteAt d.caret 2 before after).maxOffset := by
    rw [deleteAt, maxOffset_change, Buffer.maxOffset_replace]
    simp only [maxOffset] at hroom hmax ⊢
    omega
  rw [Fits, deleteAt, selection_change, hsel]
  exact ⟨hpoint ▸ hleft, hleft⟩

theorem act_deletePairForward (hd : d.Fits) : Act strict d d.deletePairForward := by
  simp only [deletePairForward]
  split
  · exact .perform (performs_delete hd)
  rename_i hempty
  split
  · rename_i hpair
    exact .perform (performs_deletePairAhead (by simpa using hempty) hpair _ _)
  split
  · exact act_deletePair 2 (Nat.le_trans (Nat.sub_le _ _) hd.2)
  split
  · exact act_setCaret _
  · exact .perform (performs_delete hd)

theorem act_quote (hd : d.Fits) : Act strict d d.quote := by
  have hcaret : min d.caret d.caret ≤ d.maxOffset := by
    rw [Nat.min_self]
    exact hd.2
  simp only [quote]
  split
  · exact .perform (performs_insert hd fun _ => Text.returnsInBreaks_of_not_mem (by decide))
  split
  · exact .perform (performs_splice hcaret fun _ => Text.returnsInBreaks_of_not_mem (by decide))
  split
  · exact act_setCaret _
  · exact .perform (performs_splice hcaret fun _ => Text.returnsInBreaks_of_not_mem (by decide))

theorem act_newline (hd : d.Fits) : Act strict d d.newline := by
  refine .afterSeal (performs_insert hd fun _ => Text.returnsInBreaks_of_not_mem ?_)
  simp

end Document

/-- Every command but undo and redo is an act, when the selection lies in the text. -/
theorem Command.act_apply {strict : Prop} {d : Document} (hd : d.Fits) (hu : d.buffer.Unbroken)
    (hr : strict → '\r' ∉ d.text) (c : Command)
    (hc : strict → ∀ s ∈ c.texts, s.ReturnsInBreaks) (hundo : c ≠ .undo)
    (hredo : c ≠ .redo) : Act strict d (c.apply d) := by
  cases c with
  | insert s => exact .perform (Document.performs_insert hd fun h => hc h s (by simp [texts]))
  | replaceAll s => exact .perform (Document.performs_replaceAll fun h => hc h s (by simp [texts]))
  | deleteSelection => exact .perform (Document.performs_deleteSelection hd)
  | backspace => exact .perform (Document.performs_backspace hd)
  | delete => exact .perform (Document.performs_delete hd)
  | newline => exact Document.act_newline hd
  | undo => exact absurd rfl hundo
  | redo => exact absurd rfl hredo
  | left clear => exact Document.act_left hd clear
  | right clear => exact Document.act_right hd clear
  | home clear => exact Document.act_keepColumn_moveTo hd _ clear
  | toLineEnd clear => exact Document.act_keepColumn_moveTo hd _ clear
  | toStart clear => exact Document.act_keepColumn_moveTo hd _ clear
  | toEnd clear => exact Document.act_keepColumn_moveTo hd _ clear
  | up clear => exact Document.act_up hd clear
  | down clear => exact Document.act_down hd clear
  | selectAll => exact Document.act_selectAll
  | setCaret offset => exact Document.act_setCaret offset
  | select s => exact Document.act_select s
  | setAnchor offset => exact Document.act_setAnchor hd offset
  | stretchTo offset => exact Document.act_stretchTo hd offset
  | wrap opener closer =>
    exact .perform (Document.performs_wrap hd (fun h => hc h opener (by simp [texts]))
      fun h => hc h closer (by simp [texts]))
  | split => exact .perform (Document.performs_split hd hr)
  | join => exact .perform Document.performs_join
  | splice => exact .perform (Document.performs_spliceAt d.caret)
  | spliceAt offset => exact .perform (Document.performs_spliceAt offset)
  | killBackward offset => exact .perform (Document.performs_killBackward _)
  | killForward offset => exact .perform (Document.performs_killForward _)
  | spliceKillingBackward => exact .perform (Document.performs_spliceKillingBackward hd)
  | spliceKillingForward => exact .perform (Document.performs_spliceKillingForward hd)
  | slurpForward => exact .perform (Document.performs_slurpForward hd hu hr)
  | slurpBackward => exact .perform (Document.performs_slurpBackward hd hu hr)
  | barfForward => exact .perform (Document.performs_barfForward hd hu hr)
  | barfBackward => exact .perform (Document.performs_barfBackward hd hu hr)
  | openPair s => exact Document.act_openPair hd fun h => hc h s (by simp [texts])
  | closeList s => exact Document.act_closeList hd fun h => hc h s (by simp [texts])
  | backspacePair => exact Document.act_backspacePair hd
  | deletePairForward => exact Document.act_deletePairForward hd
  | quote => exact Document.act_quote hd
  | grow => exact Document.act_grow hd
  | shrink => exact Document.act_shrink hd
  | raise => exact .perform (Document.performs_raise hr)
  | convolute => exact .perform (Document.performs_convolute hr)

/-- Every command takes one turn, when the selection lies in the text. -/
theorem Command.turn_apply {strict : Prop} {d : Document} (hd : d.Fits) (hu : d.buffer.Unbroken)
    (hr : strict → '\r' ∉ d.text) (c : Command)
    (hc : strict → ∀ s ∈ c.texts, s.ReturnsInBreaks) : Turn strict d (c.apply d) := by
  by_cases hundo : c = .undo
  · exact hundo ▸ .undo
  by_cases hredo : c = .redo
  · exact hredo ▸ .redo
  exact .act (c.act_apply hd hu hr hc hundo hredo)

end StructEdit
