import StructEdit.Command
import StructEdit.Proofs.Buffer.Settled

/-!
# What the work in a transaction is made of

Inside a transaction a command changes the text at places that exist, moves the
selection and flushes. `Work` says this once, and invariants of documents are proved of
it rather than of each command. A transaction inside a transaction is a piece of work
again.

The parameter `strict` says whether the texts that are put in keep to breaks of the form
`\n` and `\r\n`, so that one account serves statements about all texts and statements about
those.
-/
namespace StructEdit

/-- Both ends lie at or before `limit`. -/
def Selection.Within (s : Selection) (limit : Nat) : Prop := s.anchor ≤ limit ∧ s.caret ≤ limit

theorem Selection.within_clamp (s : Selection) (limit : Nat) : (s.clamp limit).Within limit :=
  ⟨Nat.min_le_right _ _, Nat.min_le_right _ _⟩

theorem Selection.Within.clamp_eq {s : Selection} {limit : Nat} (h : s.Within limit) :
    s.clamp limit = s := by
  unfold clamp
  rw [Nat.min_eq_left h.1, Nat.min_eq_left h.2]

theorem Selection.Within.mono {s : Selection} {m n : Nat} (h : s.Within m) (hmn : m ≤ n) :
    s.Within n :=
  ⟨Nat.le_trans h.1 hmn, Nat.le_trans h.2 hmn⟩

theorem Selection.Within.lower_le {s : Selection} {limit : Nat} (h : s.Within limit) :
    s.lower ≤ limit := Nat.le_trans (Nat.min_le_left _ _) h.1

namespace Document

/-- The selection lies in the text. -/
def Fits (d : Document) : Prop := d.selection.Within d.maxOffset

structure Busy (d : Document) : Prop where
  recording : d.recording = true
  group : d.history.group ≠ none

theorem fits_select (d : Document) (s : Selection) : (d.select s).Fits :=
  Selection.within_clamp s d.maxOffset

theorem fits_setCaret (d : Document) (offset : Nat) : (d.setCaret offset).Fits :=
  d.fits_select (.point offset)

theorem Fits.keepColumn {d : Document} (h : d.Fits) : d.keepColumn.Fits := h

theorem Fits.flush {d : Document} (h : d.Fits) : d.flush.Fits := by
  have hmax : d.flush.maxOffset = d.maxOffset := by
    rw [maxOffset, maxOffset, ← Buffer.length_text, ← Buffer.length_text]
    exact congrArg List.length (Buffer.text_flush d.buffer)
  rw [Fits, hmax]
  exact h

/-! ## Changes -/

theorem maxOffset_change (d : Document) (i j : Nat) (s : Text) (before after : Option Selection) :
    (d.change i j s before after).maxOffset = (d.buffer.replace i j s).maxOffset := by
  simp only [maxOffset, change]
  split <;> rfl

theorem recording_change (d : Document) (i j : Nat) (s : Text) (before after : Option Selection) :
    (d.change i j s before after).recording = d.recording := by
  simp only [change]
  split <;> rfl

theorem selection_change (d : Document) (i j : Nat) (s : Text) (before after : Option Selection) :
    (d.change i j s before after).selection = d.selection := by
  simp only [change]
  split <;> rfl

theorem history_change {d : Document} (h : d.recording = true) (i j : Nat) (s : Text)
    (before after : Option Selection) :
    (d.change i j s before after).history = d.history.add
      (.edit ⟨min i j, Text.normalizeBreaks s, d.buffer.slice i j⟩ ⟨before, after, false⟩) := by
  simp only [change, h, ↓reduceIte]
  rfl

theorem le_maxOffset_splice {d : Document} {i j n : Nat} (s : Text) (hn : n ≤ min i j)
    (hmax : n ≤ d.maxOffset) : n ≤ (d.splice i j s).maxOffset := by
  rw [splice, maxOffset_change]
  exact d.buffer.le_maxOffset_replace s hn hmax

theorem maxOffset_le_splice (d : Document) (i : Nat) (s : Text) :
    d.maxOffset ≤ (d.splice i i s).maxOffset := by
  rw [splice, maxOffset_change]
  exact d.buffer.maxOffset_le_insert i s

end Document

/-! ## Work -/

/-- The second document arises from the first by changes at places that exist, by moving the
selection and what else is seen of it, and by flushing. -/
inductive Work (strict : Prop) (d : Document) : Document → Prop
  | refl : Work strict d d
  | change {e : Document} {i j : Nat} {s : Text} (before after : Option Selection) :
      Work strict d e → min i j ≤ e.maxOffset → (strict → s.ReturnsInBreaks) →
      Work strict d (e.change i j s before after)
  | look {e f : Document} : Work strict d e → f.buffer = e.buffer → f.history = e.history →
      f.recording = e.recording → Work strict d f
  | flush {e : Document} : Work strict d e → Work strict d e.flush

namespace Work

variable {strict : Prop} {d e f : Document}

theorem trans (h : Work strict d e) (h' : Work strict e f) : Work strict d f := by
  induction h' with
  | refl => exact h
  | change before after _ hi hs ih => exact .change before after ih hi hs
  | look _ hb hh hr ih => exact .look ih hb hh hr
  | flush _ ih => exact .flush ih

theorem select (h : Work strict d e) (s : Selection) : Work strict d (e.select s) :=
  h.look rfl rfl rfl

theorem setCaret (h : Work strict d e) (offset : Nat) : Work strict d (e.setCaret offset) :=
  h.select (.point offset)

theorem keepColumn (h : Work strict d e) : Work strict d e.keepColumn := h.look rfl rfl rfl

theorem splice (h : Work strict d e) {i j : Nat} {s : Text} (hi : min i j ≤ e.maxOffset)
    (hs : strict → s.ReturnsInBreaks) : Work strict d (e.splice i j s) :=
  .change none none h hi hs

theorem insertion (h : Work strict d e) {i : Nat} {s : Text} (hi : i ≤ e.maxOffset)
    (hs : strict → s.ReturnsInBreaks) : Work strict d (e.splice i i s) :=
  h.splice (by rwa [Nat.min_self]) hs

theorem deletion (h : Work strict d e) {i j : Nat} (hi : min i j ≤ e.maxOffset) :
    Work strict d (e.splice i j []) :=
  h.splice hi fun _ => trivial

theorem deleteAt (h : Work strict d e) {offset : Nat} (count : Nat) (before after : Option Selection)
    (hi : offset ≤ e.maxOffset) : Work strict d (e.deleteAt offset count before after) := by
  refine .change before after h ?_ fun _ => trivial
  rwa [Nat.min_eq_left (Nat.le_add_right _ _)]

theorem group_add {h : History} (hg : h.group ≠ none) (s : Step) : (h.add s).group ≠ none := by
  unfold History.add
  split
  · simp
  · rename_i hn
    exact absurd hn hg

theorem busy (h : Work strict d e) (hd : d.Busy) : e.Busy := by
  induction h with
  | refl => exact hd
  | change before after _ _ _ ih =>
    refine ⟨by rw [Document.recording_change]; exact ih.recording, ?_⟩
    rw [Document.history_change ih.recording]
    exact group_add ih.group _
  | look _ _ hh hr ih => exact ⟨hr ▸ ih.recording, hh ▸ ih.group⟩
  | flush _ ih => exact ⟨ih.recording, ih.group⟩

end Work

namespace Document

/-- Carried out on a busy document with the same buffer and selection, this is work that ends with the
selection in the text. -/
def Works (strict : Prop) (d : Document) (work : Document → Document) : Prop :=
  ∀ e : Document, e.toPane = d.toPane → e.Busy → Work strict e (work e) ∧ (work e).Fits

/-- The document is left alone, or some work is carried out on it as a transaction. -/
def Performs (strict : Prop) (d d' : Document) : Prop :=
  d' = d ∨ ∃ work, d' = d.perform work ∧ Works strict d work

theorem performs_self (strict : Prop) (d : Document) : Performs strict d d := Or.inl rfl

theorem Works.performs {strict : Prop} {d : Document} {work : Document → Document}
    (h : Works strict d work) : Performs strict d (d.perform work) :=
  Or.inr ⟨work, rfl, h⟩

/-- The document in which a transaction starts its work. -/
def begun (d : Document) : Document :=
  { d with recording := true, history := d.history.beginGroup.2 }

theorem busy_begun (d : Document) : d.begun.Busy := by
  refine ⟨rfl, ?_⟩
  simp only [begun, History.beginGroup]
  split <;> simp_all

/-- A transaction in a busy document is its work and a flush. -/
theorem perform_of_busy {d : Document} (h : d.Busy) {work : Document → Document}
    (hw : (work d).recording = true) : d.perform work = (work d).flush := by
  have hd : { d with recording := true } = d := by
    obtain ⟨hr, -⟩ := h
    cases d
    simp only at hr
    rw [hr]
  have hbegin : d.history.beginGroup = (false, d.history) := by
    unfold History.beginGroup
    split
    · rfl
    · rename_i hn
      exact absurd hn h.group
  have hw' : { work d with recording := true } = work d := by
    cases hwd : work d
    rw [hwd] at hw
    simp only at hw
    rw [hw]
  simp only [perform, transaction, grouped, hd, hbegin, h.recording, Bool.false_eq_true,
    ↓reduceIte, hw']

theorem Performs.work {strict : Prop} {d d' : Document} (h : Performs strict d d') (hd : d.Busy)
    (hf : d.Fits) : Work strict d d' ∧ d'.Fits := by
  rcases h with rfl | ⟨work, rfl, hw⟩
  · exact ⟨.refl, hf⟩
  · obtain ⟨hwork, hfits⟩ := hw d rfl hd
    rw [perform_of_busy hd (hwork.busy hd).recording]
    exact ⟨hwork.flush, hfits.flush⟩

/-- A transaction outside of any other. -/
theorem perform_of_idle {d : Document} (h : d.history.group = none) (work : Document → Document) :
    d.perform work =
      { work d.begun with
        recording := d.recording
        history := (work d.begun).history.endGroup d.selection (work d.begun).selection }.flush := by
  simp only [perform, transaction, grouped, begun, History.beginGroup, h]
  rfl

theorem transaction_fst {α : Type} (work : Document → Document × α) (d : Document) :
    (d.transaction work).1 = d.perform fun e => (work e).1 := by
  simp only [perform, transaction, grouped]
  split <;> rfl

end Document
end StructEdit
