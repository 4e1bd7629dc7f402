import StructEdit.History.Basic
import StructEdit.Proofs.Buffer.Replace

/-!
# Steps that can be replayed

A step leads from one text to another when it undoes the second into the first and
redoes the first into the second. For an edit this means that both texts hold the same front,
which ends where the edit starts, and the same back, with the deleted text between them in
one and the inserted text in the other. Carriage returns are kept out, since putting a
text in turns them into plain breaks.

A stack of steps is a chain when each step leads to the text that the step above it
starts from. Putting a step on a chain gives a chain again, whether it merges or not.
-/
namespace StructEdit
open Text

/-- The edit turns the first text into the second. -/
def Edit.Leads (e : Edit) (s t : Text) : Prop :=
  '\r' ∉ s ∧ '\r' ∉ t ∧ ∃ front back, front.length = e.start ∧
    s = front ++ e.deleted ++ back ∧ t = front ++ e.inserted ++ back

namespace Step

mutual

/-- The step turns the first text into the second. -/
def Leads : Step → Text → Text → Prop
  | .edit e _, s, t => e.Leads s t
  | .group ss _, s, t => LeadAll ss s t

/-- The steps, the first one first, turn the first text into the second. -/
def LeadAll : List Step → Text → Text → Prop
  | [], s, t => s = t
  | x :: xs, s, t => ∃ u, x.Leads s u ∧ LeadAll xs u t

end

end Step

/-! ## Replaying -/

/-- A replacement in a text that is cut around the replaced part. -/
theorem Buffer.text_replace_cut {b : Buffer} {front mid back s : Text}
    (h : b.text = front ++ mid ++ back) (hs : '\r' ∉ s) :
    (b.replace front.length (front.length + mid.length) s).text = front ++ s ++ back := by
  have hle : front.length ≤ front.length + mid.length := Nat.le_add_right _ _
  rw [Buffer.text_replace_of_clean _ _ _ (normalizeBreaks_of_not_mem_return hs),
    Nat.min_eq_left hle, Nat.max_eq_right hle, h]
  congr 1
  · rw [List.append_assoc, List.take_left]
  · rw [← List.length_append, List.drop_left]

theorem Edit.Leads.text_revert {e : Edit} {s t : Text} (h : e.Leads s t) {p : Pane}
    (hp : p.buffer.text = t) : (e.revert p).buffer.text = s := by
  obtain ⟨hs, -, front, back, hlen, rfl, rfl⟩ := h
  have hdeleted : '\r' ∉ e.deleted := fun hm => hs (by simp [hm])
  rw [revert, ← hlen]
  exact Buffer.text_replace_cut hp hdeleted

theorem Edit.Leads.text_apply {e : Edit} {s t : Text} (h : e.Leads s t) {p : Pane}
    (hp : p.buffer.text = s) : (e.apply p).buffer.text = t := by
  obtain ⟨-, ht, front, back, hlen, rfl, rfl⟩ := h
  have hinserted : '\r' ∉ e.inserted := fun hm => ht (by simp [hm])
  rw [apply, ← hlen]
  exact Buffer.text_replace_cut hp hinserted

namespace Step

mutual

theorem text_undo : ∀ (x : Step) {s t : Text} {p : Pane}, x.Leads s t → p.buffer.text = t →
    (x.undo p).buffer.text = s
  | .edit e u, _, _, _, h, hp => by
    rw [undo, Pane.buffer_selectAny]
    exact Edit.Leads.text_revert h hp
  | .group xs u, _, _, _, h, hp => by
    rw [undo, Pane.buffer_selectAny]
    exact text_undoAll xs h hp

theorem text_undoAll : ∀ (xs : List Step) {s t : Text} {p : Pane}, LeadAll xs s t →
    p.buffer.text = t → (undoAll xs p).buffer.text = s
  | [], _, _, _, h, hp => hp.trans h.symm
  | x :: xs, _, _, _, ⟨_, hx, hxs⟩, hp => text_undo x hx (text_undoAll xs hxs hp)

end

mutual

theorem text_redo : ∀ (x : Step) {s t : Text} {p : Pane}, x.Leads s t → p.buffer.text = s →
    (x.redo p).buffer.text = t
  | .edit e u, _, _, _, h, hp => by
    rw [redo, Pane.buffer_selectAny]
    exact Edit.Leads.text_apply h hp
  | .group xs u, _, _, _, h, hp => by
    rw [redo, Pane.buffer_selectAny]
    exact text_redoAll xs h hp

theorem text_redoAll : ∀ (xs : List Step) {s t : Text} {p : Pane}, LeadAll xs s t →
    p.buffer.text = s → (redoAll xs p).buffer.text = t
  | [], _, _, _, h, hp => hp.trans h
  | x :: xs, _, _, _, ⟨_, hx, hxs⟩, hp => text_redoAll xs hxs (text_redo x hx hp)

end

/-! ## Composing -/

mutual

/-- A carriage return is in both texts or in none. -/
theorem clean_of_leads : ∀ (x : Step) {s t : Text}, x.Leads s t → ('\r' ∈ s ↔ '\r' ∈ t)
  | .edit _ _, _, _, h => ⟨fun hs => absurd hs h.1, fun ht => absurd ht h.2.1⟩
  | .group xs _, _, _, h => clean_of_leadAll xs h

theorem clean_of_leadAll : ∀ (xs : List Step) {s t : Text}, LeadAll xs s t →
    ('\r' ∈ s ↔ '\r' ∈ t)
  | [], _, _, h => by
    obtain rfl := h
    exact Iff.rfl
  | x :: xs, _, _, ⟨_, hx, hxs⟩ => (clean_of_leads x hx).trans (clean_of_leadAll xs hxs)

end

theorem leads_withTrace {x : Step} {s t : Text} (u : Trace) :
    (x.withTrace u).Leads s t ↔ x.Leads s t := by
  cases x <;> simp [withTrace, Leads]

theorem trace_withTrace (x : Step) (u : Trace) : (x.withTrace u).trace = u := by
  cases x <;> rfl

theorem leadAll_concat {xs : List Step} {x : Step} {s t u : Text} (h : LeadAll xs s t)
    (hx : x.Leads t u) : LeadAll (xs ++ [x]) s u := by
  induction xs generalizing s with
  | nil =>
    obtain rfl : s = t := h
    exact ⟨u, hx, rfl⟩
  | cons y ys ih =>
    obtain ⟨v, hy, hys⟩ := h
    exact ⟨v, hy, ih hys⟩

end Step

namespace Edit

/-- Typing goes on where the first edit stops. -/
theorem Leads.typing {e f : Edit} {s t u : Text} (he : e.Leads s t) (hf : f.Leads t u)
    (hdel : f.deleted = []) (hat : e.start + e.inserted.length = f.start) :
    { e with inserted := e.inserted ++ f.inserted }.Leads s u := by
  obtain ⟨hs, -, front, back, hlen, hs', ht⟩ := he
  obtain ⟨-, hu, front', back', hlen', ht', hu'⟩ := hf
  rw [hdel, List.append_nil] at ht'
  obtain ⟨hfront, rfl⟩ := List.append_inj (ht.symm.trans ht') (by rw [List.length_append]; omega)
  refine ⟨hs, hu, front, back, hlen, hs', ?_⟩
  rw [hu', ← hfront]
  simp

/-- Deleting forwards: what went first stood in front. -/
theorem Leads.deletingAhead {e f : Edit} {s t u : Text} (he : e.Leads s t) (hf : f.Leads t u)
    (hins : e.inserted = []) (hins' : f.inserted = []) (hat : e.start = f.start) :
    { e with deleted := e.deleted ++ f.deleted }.Leads s u := by
  obtain ⟨hs, -, front, back, hlen, hs', ht⟩ := he
  obtain ⟨-, hu, front', back', hlen', ht', hu'⟩ := hf
  rw [hins, List.append_nil] at ht
  rw [List.append_assoc] at ht'
  obtain ⟨rfl, hback⟩ := List.append_inj (ht.symm.trans ht') (by omega)
  refine ⟨hs, hu, front, back', hlen, ?_, ?_⟩
  · rw [hs', hback]
    simp
  · rw [hu', hins, hins']

/-- Deleting backwards: what went first stood behind. -/
theorem Leads.deletingBehind {e f : Edit} {s t u : Text} (he : e.Leads s t) (hf : f.Leads t u)
    (hins : e.inserted = []) (hins' : f.inserted = [])
    (hat : f.start + f.deleted.length = e.start) :
    { e with start := f.start, deleted := f.deleted ++ e.deleted }.Leads s u := by
  obtain ⟨hs, -, front, back, hlen, hs', ht⟩ := he
  obtain ⟨-, hu, front', back', hlen', ht', hu'⟩ := hf
  rw [hins, List.append_nil] at ht
  obtain ⟨rfl, rfl⟩ := List.append_inj (ht.symm.trans ht') (by rw [List.length_append]; omega)
  refine ⟨hs, hu, front', back, hlen', ?_, ?_⟩
  · rw [hs']
    simp
  · rw [hu', hins, hins']

theorem Leads.merge? {e f g : Edit} {s t u : Text} (he : e.Leads s t) (hf : f.Leads t u)
    (h : e.merge? f = some g) : g.Leads s u := by
  unfold Edit.merge? at h
  split at h
  · rename_i hc
    obtain rfl := Option.some.inj h
    obtain ⟨h₁, h₂, hat⟩ := hc
    simp only [isTyping, Bool.and_eq_true, List.isEmpty_iff] at h₁ h₂
    exact he.typing hf h₂.1 hat
  · split at h
    · rename_i hc
      obtain rfl := Option.some.inj h
      obtain ⟨h₁, h₂, hat⟩ := hc
      simp only [isDeleting, Bool.and_eq_true, List.isEmpty_iff] at h₁ h₂
      exact he.deletingAhead hf h₁.1 h₂.1 hat
    · split at h
      · rename_i hc
        obtain rfl := Option.some.inj h
        obtain ⟨h₁, h₂, hat⟩ := hc
        simp only [isDeleting, Bool.and_eq_true, List.isEmpty_iff] at h₁ h₂
        exact he.deletingBehind hf h₁.1 h₂.1 hat
      · simp at h

end Edit

/-- A merged step leads all the way, and lands where the second one did. -/
theorem Step.Leads.merge? {x y m : Step} {s t u : Text} (hx : x.Leads s t) (hy : y.Leads t u)
    (h : x.merge? y = some m) : m.Leads s u ∧ m.trace.after = y.trace.after := by
  cases x with
  | group xs v => simp [Step.merge?] at h
  | edit e v =>
    cases y with
    | group ys w => simp [Step.merge?] at h
    | edit f w =>
      simp only [Step.merge?, Option.map_eq_some_iff] at h
      obtain ⟨g, hg, rfl⟩ := h
      exact ⟨Edit.Leads.merge? hx hy hg, rfl⟩

/-! ## Stacks -/

/-- The steps of a stack, the last one on top, lead from `origin` to the text. The selection that each
one restores on redo is `ok` for the text that it leads to. -/
def Chain (ok : Option Selection → Text → Prop) (origin : Text) : List Step → Text → Prop
  | [], t => t = origin
  | x :: xs, t => ok x.trace.after t ∧ ∃ s, x.Leads s t ∧ Chain ok origin xs s

/-- The steps of a stack can be redone from the text on, the top one first. -/
def Awaits (ok : Option Selection → Text → Prop) : List Step → Text → Prop
  | [], _ => True
  | x :: xs, s => ∃ t, x.Leads s t ∧ ok x.trace.after t ∧ Awaits ok xs t

theorem History.isEmpty_push (steps : List Step) (s : Step) :
    (History.push steps s).isEmpty = false := by
  unfold History.push
  split
  · rfl
  · split
    · rfl
    · split <;> rfl

section
variable {ok : Option Selection → Text → Prop} {origin : Text}

theorem Chain.push {xs : List Step} {x : Step} {s t : Text} (h : Chain ok origin xs s)
    (hx : x.Leads s t) (hok : ok x.trace.after t) : Chain ok origin (History.push xs x) t := by
  cases xs with
  | nil => exact ⟨hok, s, hx, h⟩
  | cons top rest =>
    simp only [History.push]
    split
    · exact ⟨hok, s, hx, h⟩
    · split
      · rename_i m hm
        obtain ⟨-, r, htop, hrest⟩ := h
        obtain ⟨hlead, hafter⟩ := htop.merge? hx hm
        exact ⟨hafter ▸ hok, r, hlead, hrest⟩
      · exact ⟨hok, s, hx, h⟩

theorem Chain.leadAll {xs : List Step} {t : Text} (h : Chain ok origin xs t) :
    Step.LeadAll xs.reverse origin t := by
  induction xs generalizing t with
  | nil => exact Eq.symm h
  | cons x xs ih =>
    obtain ⟨-, s, hx, hxs⟩ := h
    rw [List.reverse_cons]
    exact Step.leadAll_concat (ih hxs) hx

/-- A seal changes nothing that is replayed. -/
theorem Chain.sealTop {h : History} {t : Text} (hc : Chain ok origin h.undos t) :
    Chain ok origin h.sealTop.undos t := by
  unfold History.sealTop
  split
  · exact hc
  · rename_i x xs hu
    rw [hu] at hc
    obtain ⟨hok, s, hx, hxs⟩ := hc
    refine ⟨?_, s, (Step.leads_withTrace _).2 hx, hxs⟩
    rw [Step.withSeal, Step.trace_withTrace]
    exact hok

end
end StructEdit
