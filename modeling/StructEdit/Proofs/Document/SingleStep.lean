import StructEdit.Proofs.Document.RoundTrip

/-!
# One command, one step

Where the last step takes in no other, a command that is neither undo nor redo leaves text and
stacks as they are, or puts exactly one step on the first stack. That step spans the command:
undo goes back to the text and the selection from before it, and redo forth to those
from right after it. How many edits the command makes, whether it runs other commands inside
its own transaction, and whether it is refused half-way makes no difference.

What lies deeper in the history does not matter either, so only the present text and the texts
given to this one command have to be free of carriage returns.
-/
namespace StructEdit

/-- The last step, if there is one, takes in no later step. -/
def History.Sealed (h : History) : Prop := ∀ s ∈ h.undos.head?, s.sealed = true

theorem Step.withSeal_of_sealed {s : Step} (h : s.sealed = true) : s.withSeal = s := by
  cases s with
  | edit e t =>
    obtain ⟨before, after, b⟩ := t
    obtain rfl : b = true := h
    rfl
  | group ss t =>
    obtain ⟨before, after, b⟩ := t
    obtain rfl : b = true := h
    rfl

namespace History

theorem Sealed.push_eq {h : History} (hs : h.Sealed) (s : Step) :
    push h.undos s = s :: h.undos := by
  unfold Sealed at hs
  cases hu : h.undos with
  | nil => rfl
  | cons top rest =>
    have htop : top.sealed = true := hs top (by rw [hu]; rfl)
    simp only [push, htop, ↓reduceIte]

theorem Sealed.sealTop_eq {h : History} (hs : h.Sealed) : h.sealTop = h := by
  unfold Sealed at hs
  unfold sealTop
  split
  · rfl
  · rename_i top rest hu
    have htop : top.sealed = true := hs top (by rw [hu]; rfl)
    rw [Step.withSeal_of_sealed htop, ← hu]

end History

/-- A step that knows a selection ends its undo there. -/
theorem Step.selection_undo {s : Step} {sel : Selection} (h : s.trace.before = some sel)
    (p : Pane) : (s.undo p).selection = sel.clamp (s.undo p).buffer.maxOffset := by
  cases s <;>
  · simp only [trace] at h
    rw [undo, h]
    rfl

namespace Document

variable {d e : Document}

/-- Undo along a step that spans two documents goes back to the first of them. -/
theorem Spans.undo {s : Step} {rest : List Step} (h : Spans d e s) (hd : d.Fits)
    (hu : e.history.undos = s :: rest) :
    e.undo.text = d.text ∧ e.undo.selection = d.selection := by
  have htext : (s.undo e.toPane).buffer.text = d.text := s.text_undo h.leads rfl
  refine ⟨(undo_spec hu h.leads).1, ?_⟩
  have hsel : (s.undo e.toPane).selection = d.selection := by
    rw [Step.selection_undo h.before, ← Buffer.length_text, htext, text, Buffer.length_text]
    exact Selection.Within.clamp_eq hd
  unfold Document.undo
  rw [hu]
  exact hsel

/-- And redo comes back to the second. -/
theorem Spans.undo_redo {s : Step} {rest : List Step} (h : Spans d e s) (hd : d.Fits) (he : e.Fits)
    (hu : e.history.undos = s :: rest) :
    e.undo.redo.text = e.text ∧ e.undo.redo.selection = e.selection := by
  have hlanded : Landed s.trace.after e.text := by
    refine ⟨e.selection, h.after, ?_⟩
    rw [text, Buffer.length_text]
    exact he
  have hlead : s.Leads e.undo.text e.text := by
    rw [(h.undo hd hu).1]
    exact h.leads
  obtain ⟨htext, -, -, hafter⟩ := redo_spec (undo_spec hu h.leads).2.2 hlead hlanded
  exact ⟨htext, Option.some.inj (hafter.symm.trans h.after)⟩

/-- On top of a sealed step, an act leaves text and stacks alone or puts one step that spans it on
the first stack. -/
theorem Standing.act_spans (hd : d.Standing) (hclean : '\r' ∉ d.text) (hs : d.history.Sealed)
    (ha : Act True d e) :
    (e.text = d.text ∧ e.history.undos = d.history.undos ∧ e.history.redos = d.history.redos) ∨
    ∃ s, Spans d e s ∧ e.history.undos = s :: d.history.undos ∧ e.history.redos = [] := by
  have hperforms : d.Performs True e →
      (e.text = d.text ∧ e.history.undos = d.history.undos ∧ e.history.redos = d.history.redos) ∨
      ∃ s, Spans d e s ∧ e.history.undos = s :: d.history.undos ∧ e.history.redos = [] := by
    intro he
    rcases (he.spans hd.group hclean).2 with hsame | ⟨s, hspans, -, hundos, hredos⟩
    · exact Or.inl hsame
    · exact Or.inr ⟨s, hspans, hundos.trans (hs.push_eq s), hredos⟩
  cases ha with
  | look hb hh _ _ => exact Or.inl ⟨congrArg Buffer.text hb, by rw [hh], by rw [hh]⟩
  | perform he => exact hperforms he
  | afterSeal he =>
    have hseal : d.sealHistory = d := by
      rw [sealHistory, hs.sealTop_eq]
    exact hperforms (hseal ▸ he)

/-- A document that commands lead to from a fresh one, where the last step may be sealed at any
time. -/
inductive Reached : Document → Prop
  | fresh {d : Document} : d.Fresh (fun _ => True) → Reached d
  | apply {d : Document} (c : Command) : Reached d → Reached (c.apply d)
  | sealHistory {d : Document} : Reached d → Reached d.sealHistory

theorem Reached.standing (h : d.Reached) : d.Standing := by
  induction h with
  | fresh hd => exact hd.standing
  | apply c _ ih => exact Command.standing_runAll ih [c]
  | sealHistory _ ih => exact ih.seal

end Document

/-- One command is one step. On a document without carriage returns whose last step, if any, is
sealed, a command other than undo and redo, given texts without carriage returns, leaves text and
stacks as they are, or makes the first stack longer by exactly one step and clears the second. In
that case one undo restores text and selection from before the command, and one redo after it
restores those from right after the command. -/
theorem apply_single_step {d : Document} (hd : d.Reached) (hclean : '\r' ∉ d.text)
    (hs : d.history.Sealed) {c : Command} (hundo : c ≠ .undo) (hredo : c ≠ .redo)
    (hc : ∀ s ∈ c.texts, '\r' ∉ s) :
    let e := c.apply d
    (e.text = d.text ∧ e.history.undos = d.history.undos ∧ e.history.redos = d.history.redos) ∨
    ((∃ s, e.history.undos = s :: d.history.undos) ∧ e.history.redos = [] ∧
      e.undo.text = d.text ∧ e.undo.selection = d.selection ∧
      e.undo.redo.text = e.text ∧ e.undo.redo.selection = e.selection) := by
  have hstanding := hd.standing
  have hact : Act True d (c.apply d) :=
    c.act_apply hstanding.fits hstanding.unbroken (fun _ => hclean)
      (fun _ s hm => Text.returnsInBreaks_of_not_mem (hc s hm)) hundo hredo
  have hfits : (c.apply d).Fits := (hstanding.act hact).fits
  rcases hstanding.act_spans hclean hs hact with hsame | ⟨s, hspans, hundos, hredos⟩
  · exact Or.inl hsame
  · obtain ⟨hutext, husel⟩ := hspans.undo hstanding.fits hundos
    obtain ⟨hrtext, hrsel⟩ := hspans.undo_redo hstanding.fits hfits hundos
    exact Or.inr ⟨⟨s, hundos⟩, hredos, hutext, husel, hrtext, hrsel⟩

/-- A kill and a splice, three edits in all, on top of typing that was sealed. -/
theorem apply_single_step_killing :
    let d := (Command.runAll [.setCaret 3, .insert ['x']]
      (.ofText ['(', 'a', ' ', 'b', ')'])).sealHistory
    let e := Command.spliceKillingBackward.apply d
    d.text = ['(', 'a', ' ', 'x', 'b', ')'] ∧ e.text = ['b'] ∧
      e.history.undos.length = 2 ∧ e.undo.text = d.text ∧ e.undo.selection = ⟨4, 4⟩ ∧
      e.undo.redo.text = e.text ∧ e.undo.redo.selection = ⟨0, 0⟩ := by
  intro d e
  have hd : d.Reached := .sealHistory (.apply _ (.apply _ (.fresh (.ofText trivial))))
  have hdtext : d.text = ['(', 'a', ' ', 'x', 'b', ')'] := by decide +kernel
  have hetext : e.text = ['b'] := by decide +kernel
  have hchanged : e.text ≠ d.text := by
    rw [hdtext, hetext]
    decide
  have hclean : '\r' ∉ d.text := by
    rw [hdtext]
    decide
  have hs : d.history.Sealed := by
    show ∀ s ∈ d.history.undos.head?, s.sealed = true
    decide +kernel
  obtain ⟨-, -, hutext, husel, hrtext, hrsel⟩ :=
    (apply_single_step hd hclean hs (c := .spliceKillingBackward) (by decide) (by decide)
      (by decide)).resolve_left fun h => hchanged h.1
  refine ⟨hdtext, hetext, ?_, hutext, husel.trans ?_, hrtext, hrsel.trans ?_⟩
  · decide +kernel
  · decide +kernel
  · decide +kernel

end StructEdit
