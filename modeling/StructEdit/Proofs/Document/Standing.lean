import StructEdit.Proofs.Document.Turns

/-!
# Standing documents

What holds of a document between two commands. The selection lies in the text, no row
waits to be scanned again and every row was scanned in the mode that the row above ends
in, nothing is recorded and no group is open. Two more facts carry this from turn to turn.
Lines hold no breaks, so a delimiter that is carried elsewhere takes the same room there.
And every step on the stacks knows a selection to restore, so that undo and redo,
which change the length of the text, select anew.
-/
namespace StructEdit

/-! ## Steps -/

/-- The step has a selection to restore in both directions. -/
def Step.Restores (s : Step) : Prop := s.trace.before ≠ none ∧ s.trace.after ≠ none

namespace Step

theorem restores_withSelections (s : Step) (before after : Selection) :
    (s.withSelections before after).Restores := by
  cases s <;> simp [Restores, withSelections, withTrace, trace]

theorem Restores.withSeal {s : Step} (h : s.Restores) : s.withSeal.Restores := by
  cases s <;> exact h

theorem Restores.merge? {s t m : Step} (hs : s.Restores) (ht : t.Restores)
    (h : s.merge? t = some m) : m.Restores := by
  cases s with
  | group ss u => simp [Step.merge?] at h
  | edit e u =>
    cases t with
    | group ss v => simp [Step.merge?] at h
    | edit f v =>
      simp only [Step.merge?, Option.map_eq_some_iff] at h
      obtain ⟨g, -, rfl⟩ := h
      exact ⟨hs.1, ht.2⟩

end Step

structure Buffer.Sound (b : Buffer) : Prop where
  covered : b.Covered
  unbroken : b.Unbroken

namespace Buffer.Sound

theorem replace {b : Buffer} (h : b.Sound) (i j : Nat) (s : Text) : (b.replace i j s).Sound :=
  ⟨h.covered.replace i j s, h.unbroken.replace i j s⟩

theorem flush {b : Buffer} (h : b.Sound) : b.flush.Sound :=
  ⟨h.covered.flush.covered, h.unbroken.flush⟩

end Buffer.Sound

namespace Step

mutual

theorem sound_undo : ∀ (s : Step) {p : Pane}, p.buffer.Sound → (s.undo p).buffer.Sound
  | .edit e t, p, h => by
    rw [undo, Pane.buffer_selectAny]
    exact h.replace _ _ _
  | .group ss t, p, h => by
    rw [undo, Pane.buffer_selectAny]
    exact sound_undoAll ss h

theorem sound_undoAll : ∀ (ss : List Step) {p : Pane}, p.buffer.Sound →
    (undoAll ss p).buffer.Sound
  | [], _, h => h
  | s :: ss, _, h => sound_undo s (sound_undoAll ss h)

end

mutual

theorem sound_redo : ∀ (s : Step) {p : Pane}, p.buffer.Sound → (s.redo p).buffer.Sound
  | .edit e t, p, h => by
    rw [redo, Pane.buffer_selectAny]
    exact h.replace _ _ _
  | .group ss t, p, h => by
    rw [redo, Pane.buffer_selectAny]
    exact sound_redoAll ss h

theorem sound_redoAll : ∀ (ss : List Step) {p : Pane}, p.buffer.Sound →
    (redoAll ss p).buffer.Sound
  | [], _, h => h
  | s :: ss, _, h => sound_redoAll ss (sound_redo s h)

end

/-- A step that restores selections ends by selecting. -/
theorem Restores.within_undo {s : Step} (h : s.Restores) (p : Pane) :
    (s.undo p).selection.Within (s.undo p).buffer.maxOffset := by
  obtain ⟨before, hbefore⟩ := Option.ne_none_iff_exists'.1 h.1
  cases s <;>
  · simp only [trace] at hbefore
    rw [undo, hbefore]
    exact Selection.within_clamp _ _

theorem Restores.within_redo {s : Step} (h : s.Restores) (p : Pane) :
    (s.redo p).selection.Within (s.redo p).buffer.maxOffset := by
  obtain ⟨after, hafter⟩ := Option.ne_none_iff_exists'.1 h.2
  cases s <;>
  · simp only [trace] at hafter
    rw [redo, hafter]
    exact Selection.within_clamp _ _

end Step

/-! ## Histories -/

namespace History

theorem restores_push {steps : List Step} {s : Step} (h : ∀ t ∈ steps, t.Restores)
    (hs : s.Restores) : ∀ t ∈ push steps s, t.Restores := by
  cases steps with
  | nil => simpa [push] using hs
  | cons top rest =>
    have hboth : ∀ t ∈ s :: top :: rest, t.Restores := by
      intro t ht
      rcases List.mem_cons.1 ht with rfl | ht
      · exact hs
      · exact h t ht
    simp only [push]
    split
    · exact hboth
    · split
      · rename_i m hm
        intro t ht
        rcases List.mem_cons.1 ht with rfl | ht
        · exact (h top List.mem_cons_self).merge? hs hm
        · exact h t (List.mem_cons_of_mem _ ht)
      · exact hboth

/-- Closing a group leaves the stacks as they were, or puts one step that restores selections on the
first of them. -/
theorem endGroup_cases (h : History) (before after : Selection) :
    ((h.endGroup before after).undos = h.undos ∧ (h.endGroup before after).redos = h.redos) ∨
    ∃ s : Step, s.Restores ∧ (h.endGroup before after).undos = push h.undos s ∧
      (h.endGroup before after).redos = [] := by
  unfold endGroup
  split
  · exact Or.inl ⟨rfl, rfl⟩
  · dsimp only
    split
    · exact Or.inl ⟨rfl, rfl⟩
    · exact Or.inr ⟨_, Step.restores_withSelections _ before after, rfl, rfl⟩
    · exact Or.inr ⟨_, ⟨by simp [Step.trace], by simp [Step.trace]⟩, rfl, rfl⟩

theorem group_endGroup {h : History} (hg : h.group ≠ none) (before after : Selection) :
    (h.endGroup before after).group = none := by
  unfold endGroup
  split
  · rename_i hn
    exact absurd hn hg
  · dsimp only
    split <;> rfl

structure Restores (h : History) : Prop where
  undos : ∀ s ∈ h.undos, s.Restores
  redos : ∀ s ∈ h.redos, s.Restores

theorem restores_empty : History.empty.Restores := ⟨by simp [empty], by simp [empty]⟩

theorem Restores.endGroup {h : History} (hr : h.Restores) (before after : Selection) :
    (h.endGroup before after).Restores := by
  rcases h.endGroup_cases before after with ⟨hu, hd⟩ | ⟨s, hs, hu, hd⟩
  · exact ⟨hu ▸ hr.undos, hd ▸ hr.redos⟩
  · refine ⟨hu ▸ restores_push hr.undos hs, ?_⟩
    rw [hd]
    simp

theorem Restores.sealTop {h : History} (hr : h.Restores) : h.sealTop.Restores := by
  unfold History.sealTop
  split
  · exact hr
  · rename_i s ss hu
    refine ⟨?_, hr.redos⟩
    have hundos := hr.undos
    rw [hu] at hundos
    intro t ht
    rcases List.mem_cons.1 ht with rfl | ht
    · exact (hundos s List.mem_cons_self).withSeal
    · exact hundos t (List.mem_cons_of_mem _ ht)

end History

/-! ## Documents -/

theorem Work.sound {strict : Prop} {d e : Document} (h : Work strict d e) (hd : d.buffer.Sound) :
    e.buffer.Sound := by
  induction h with
  | refl => exact hd
  | change before after _ _ _ ih =>
    rw [Document.buffer_change]
    exact ih.replace _ _ _
  | look _ hb _ _ ih => exact hb ▸ ih
  | flush _ ih => exact ih.flush

/-- While a group is open, the stacks are left alone. -/
theorem Work.restores {strict : Prop} {d e : Document} (h : Work strict d e) (hb : d.Busy)
    (hd : d.history.Restores) : e.history.Restores := by
  induction h with
  | refl => exact hd
  | change before after hw _ _ ih =>
    rw [Document.history_change (hw.busy hb).recording]
    unfold History.add
    split
    · exact ⟨ih.undos, by simp⟩
    · rename_i hn
      exact absurd hn (hw.busy hb).group
  | look _ _ hh _ ih => exact hh ▸ ih
  | flush _ ih => exact ih

namespace Document

/-- What holds of a document between two commands. -/
structure Standing (d : Document) : Prop where
  fits : d.Fits
  settled : d.buffer.Settled
  dirty : d.buffer.dirty = []
  unbroken : d.buffer.Unbroken
  recording : d.recording = false
  group : d.history.group = none
  restores : d.history.Restores

theorem Standing.sound {d : Document} (h : d.Standing) : d.buffer.Sound :=
  ⟨h.settled.covered, h.unbroken⟩

theorem Standing.seal {d : Document} (h : d.Standing) : d.sealHistory.Standing where
  fits := h.fits
  settled := h.settled
  dirty := h.dirty
  unbroken := h.unbroken
  recording := h.recording
  group := by
    have hg := h.group
    simp only [sealHistory, History.sealTop]
    split <;> exact hg
  restores := h.restores.sealTop

theorem Standing.performs {strict : Prop} {d e : Document} (h : d.Standing)
    (he : d.Performs strict e) : e.Standing := by
  rcases he with rfl | ⟨work, rfl, hw⟩
  · exact h
  · obtain ⟨hwork, hfits⟩ := hw d.begun rfl d.busy_begun
    have hsound : (work d.begun).buffer.Sound := hwork.sound h.sound
    have hbegun : d.begun.history.Restores := by
      simp only [begun, History.beginGroup, h.group]
      exact ⟨h.restores.undos, h.restores.redos⟩
    rw [perform_of_idle h.group]
    exact
      { fits := Fits.flush hfits
        settled := hsound.covered.flush
        dirty := rfl
        unbroken := hsound.unbroken.flush
        recording := h.recording
        group := History.group_endGroup (hwork.busy d.busy_begun).group _ _
        restores := (hwork.restores d.busy_begun hbegun).endGroup _ _ }

/-- A flush stands in for what undo and redo left to do. -/
theorem Standing.flush {d : Document} (hf : d.Fits) (hs : d.buffer.Sound)
    (hr : d.recording = false) (hg : d.history.group = none) (hh : d.history.Restores) :
    d.flush.keepColumn.Standing where
  fits := hf.flush
  settled := hs.covered.flush
  dirty := rfl
  unbroken := hs.unbroken.flush
  recording := hr
  group := hg
  restores := hh

theorem Standing.undo {d : Document} (h : d.Standing) : d.undo.Standing := by
  unfold Document.undo
  dsimp only
  split
  · exact Standing.flush h.fits h.sound h.recording h.group h.restores
  · rename_i s rest hu
    have hundos := h.restores.undos
    rw [hu] at hundos
    have hs : s.Restores := hundos s List.mem_cons_self
    refine Standing.flush ?_ ?_ h.recording h.group ⟨?_, ?_⟩
    · exact hs.within_undo d.toPane
    · exact s.sound_undo h.sound
    · exact fun t ht => hundos t (List.mem_cons_of_mem _ ht)
    · intro t ht
      rcases List.mem_cons.1 ht with rfl | ht
      · exact hs
      · exact h.restores.redos t ht

theorem Standing.redo {d : Document} (h : d.Standing) : d.redo.Standing := by
  unfold Document.redo
  dsimp only
  split
  · exact Standing.flush h.fits h.sound h.recording h.group h.restores
  · rename_i s rest hu
    have hredos := h.restores.redos
    rw [hu] at hredos
    have hs : s.Restores := hredos s List.mem_cons_self
    refine Standing.flush ?_ ?_ h.recording h.group ⟨?_, ?_⟩
    · exact hs.within_redo d.toPane
    · exact s.sound_redo h.sound
    · intro t ht
      rcases List.mem_cons.1 ht with rfl | ht
      · exact hs
      · exact h.restores.undos t ht
    · exact fun t ht => hredos t (List.mem_cons_of_mem _ ht)

theorem Standing.act {strict : Prop} {d e : Document} (h : d.Standing) (ha : Act strict d e) :
    e.Standing := by
  cases ha with
  | look hb hh hr hf =>
    exact
      { fits := hf
        settled := hb ▸ h.settled
        dirty := hb ▸ h.dirty
        unbroken := hb ▸ h.unbroken
        recording := hr ▸ h.recording
        group := hh ▸ h.group
        restores := hh ▸ h.restores }
  | perform he => exact h.performs he
  | afterSeal he => exact h.seal.performs he

theorem Standing.turn {strict : Prop} {d e : Document} (h : d.Standing) (ht : Turn strict d e) :
    e.Standing := by
  cases ht with
  | act ha => exact h.act ha
  | undo => exact h.undo
  | redo => exact h.redo

/-- A document that nothing was done to yet: empty, or made from an allowed text. -/
inductive Fresh (allowed : Text → Prop) : Document → Prop
  | empty : Fresh allowed .empty
  | ofText {s : Text} : allowed s → Fresh allowed (.ofText s)
  | withIndent {d : Document} (s : IndentSettings) : Fresh allowed d → Fresh allowed (d.withIndent s)

theorem Fresh.standing {allowed : Text → Prop} {d : Document} (h : d.Fresh allowed) :
    d.Standing := by
  induction h with
  | empty =>
    exact
      { fits := ⟨Nat.zero_le _, Nat.zero_le _⟩
        settled := Buffer.settled_empty
        dirty := rfl
        unbroken := Buffer.unbroken_empty
        recording := rfl
        group := rfl
        restores := History.restores_empty }
  | ofText _ =>
    exact
      { fits := ⟨Nat.zero_le _, Nat.zero_le _⟩
        settled := (Buffer.covered_ofText _).settled rfl
        dirty := rfl
        unbroken := Buffer.Unbroken.ofText _
        recording := rfl
        group := rfl
        restores := History.restores_empty }
  | withIndent s _ ih =>
    exact ⟨ih.fits, ih.settled, ih.dirty, ih.unbroken, ih.recording, ih.group, ih.restores⟩

end Document

theorem Command.standing_runAll {d : Document} (h : d.Standing) (cs : List Command) :
    (runAll cs d).Standing := by
  induction cs generalizing d with
  | nil => exact h
  | cons c cs ih =>
    have hturn : Turn False d (c.apply d) := c.turn_apply h.fits h.unbroken False.elim False.elim
    exact ih (h.turn hturn)

/-- After any commands, with any arguments, both ends of the selection lie in the text, no row waits
to be scanned again, nothing is recorded, no group is open, and every row was scanned in the mode
that the row above ends in. -/
theorem document_invariant_runAll {d₀ : Document} (h : d₀.Fresh fun _ => True) (cs : List Command) :
    let d := Command.runAll cs d₀
    d.selection.anchor ≤ d.maxOffset ∧ d.selection.caret ≤ d.maxOffset ∧
    d.buffer.dirty = [] ∧ d.recording = false ∧ d.history.group = none ∧
    (∀ l, d.buffer.lines[0]? = some l → l.start = .code) ∧
    (∀ (row : Nat) (l m : Line), d.buffer.lines[row]? = some l →
      d.buffer.lines[row + 1]? = some m → m.start = l.stop) := by
  have hd := Command.standing_runAll h.standing cs
  exact ⟨hd.fits.1, hd.fits.2, hd.dirty, hd.recording, hd.group, hd.settled.first, hd.settled.next⟩

/-- The last line is left inside a string, and undone. -/
theorem document_invariant_runAll_quote :
    (Command.runAll [.insert ['"', 'a', '\n'], .selectAll, .undo] .empty).selection.anchor ≤
      (Command.runAll [.insert ['"', 'a', '\n'], .selectAll, .undo] .empty).maxOffset :=
  (document_invariant_runAll .empty [.insert ['"', 'a', '\n'], .selectAll, .undo]).1

end StructEdit
