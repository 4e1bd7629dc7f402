import StructEdit.Proofs.History.Replay

/-!
# What merging keeps

A step takes in a later one, or the later one comes back and both stay as they were.
The three ways to merge (typing on, deleting forwards, deleting backwards) are the cases
of `Edit.Leads.merge?`; here an edit is known only by the text that it finds. An edit that finds
its deleted text where it starts leads to the text that it makes, so the merged step replays
like the two in turn, at any pane that holds the text.
-/
namespace StructEdit
open Text

/-- The text has the word at the position. -/
def Text.HasAt (s w : Text) (i : Nat) : Prop := i ≤ s.length ∧ w <+: s.drop i

instance (s w : Text) (i : Nat) : Decidable (s.HasAt w i) :=
  inferInstanceAs (Decidable (_ ∧ _))

theorem Text.HasAt.split {s w : Text} {i : Nat} (h : s.HasAt w i) :
    ∃ front back, front.length = i ∧ s = front ++ w ++ back := by
  obtain ⟨hle, back, hback⟩ := h
  refine ⟨s.take i, back, List.length_take_of_le hle, ?_⟩
  rw [List.append_assoc, hback, List.take_append_drop]

/-- An edit whose deleted text is in place leads from there to what it makes. -/
theorem Edit.leads_apply {e : Edit} {p : Pane} (hat : p.buffer.text.HasAt e.deleted e.start)
    (hp : '\r' ∉ p.buffer.text) (he : '\r' ∉ e.inserted) :
    e.Leads p.buffer.text (e.apply p).buffer.text := by
  obtain ⟨front, back, hlen, hcut⟩ := hat.split
  have htext : (e.apply p).buffer.text = front ++ e.inserted ++ back := by
    rw [apply, ← hlen]
    exact Buffer.text_replace_cut hcut he
  refine ⟨hp, ?_, front, back, hlen, hcut, htext⟩
  rw [hcut] at hp
  rw [htext]
  simp only [List.mem_append, not_or] at hp ⊢
  exact ⟨⟨hp.1.1, he⟩, hp.2⟩

namespace Step

/-- What is left of the first step once it is offered the second, and the second if it comes
back. -/
def absorb (x y : Step) : Step × Option Step :=
  match x.merge? y with
  | some m => (m, none)
  | none => (x, some y)

theorem absorb_of_merge? {x y m : Step} (h : x.merge? y = some m) : x.absorb y = (m, none) := by
  simp only [absorb, h]

theorem absorb_of_not_merge? {x y : Step} (h : x.merge? y = none) :
    x.absorb y = (x, some y) := by
  simp only [absorb, h]

/-- A step that comes back is the one that was offered, to a step that is as it was. -/
theorem absorb_rejected {x y z : Step} (h : (x.absorb y).2 = some z) :
    z = y ∧ (x.absorb y).1 = x := by
  cases hm : x.merge? y with
  | some m => simp [absorb_of_merge? hm] at h
  | none =>
    rw [absorb_of_not_merge? hm] at h ⊢
    exact ⟨(Option.some.inj h).symm, rfl⟩

/-- A step that does not come back has been merged. -/
theorem merge?_of_absorbed {x y : Step} (h : (x.absorb y).2 = none) :
    x.merge? y = some (x.absorb y).1 := by
  cases hm : x.merge? y with
  | some m => rw [absorb_of_merge? hm]
  | none => simp [absorb_of_not_merge? hm] at h

theorem absorb_group_left (xs : List Step) (t : Trace) (y : Step) :
    (Step.group xs t).absorb y = (.group xs t, some y) :=
  absorb_of_not_merge? (by simp [merge?])

theorem absorb_group_right (x : Step) (ys : List Step) (u : Trace) :
    x.absorb (.group ys u) = (x, some (.group ys u)) :=
  absorb_of_not_merge? (by cases x <;> simp [merge?])

/-- A merged edit keeps what the first one brings back and its seal, and lands where the second one
did. -/
theorem trace_of_merge? {e f : Edit} {t u : Trace} {m : Step}
    (h : (Step.edit e t).merge? (.edit f u) = some m) : m.trace = { t with after := u.after } := by
  simp only [merge?, Option.map_eq_some_iff] at h
  obtain ⟨g, -, rfl⟩ := h
  rfl

end Step

/-- A step that is put on a stack is offered to the top, unless that is sealed. -/
theorem History.push_cons (x y : Step) (rest : List Step) :
    History.push (x :: rest) y = if x.sealed then y :: x :: rest
      else (x.absorb y).2.toList ++ (x.absorb y).1 :: rest := by
  simp only [History.push]
  split
  · rfl
  · cases hm : x.merge? y with
    | some m => simp [Step.absorb_of_merge? hm]
    | none => simp [Step.absorb_of_not_merge? hm]

/-- Merging is sound. Take two edits that find their deleted texts in place, the second one after
the first. If the first takes the second in, then the one step makes the text that the two make in
turn, takes that text back to where they started from, and remembers what both do. Otherwise
the second comes back and the first is as it was, as always happens with groups. The stacks put a
step on an unsealed top just so. -/
theorem Step.absorb_sound {e f : Edit} {p : Pane} (t u : Trace) (hp : '\r' ∉ p.buffer.text)
    (he : '\r' ∉ e.inserted) (hf : '\r' ∉ f.inserted)
    (hat : p.buffer.text.HasAt e.deleted e.start)
    (hat' : (e.apply p).buffer.text.HasAt f.deleted f.start) :
    let kept := ((Step.edit e t).absorb (.edit f u)).1
    let back := ((Step.edit e t).absorb (.edit f u)).2
    (back = none →
      (kept.redo p).buffer.text = ((Step.edit f u).redo ((Step.edit e t).redo p)).buffer.text ∧
      (∀ q : Pane, q.buffer.text = (kept.redo p).buffer.text →
        (kept.undo q).buffer.text = p.buffer.text) ∧
      kept.trace = { t with after := u.after }) ∧
    (∀ y, back = some y → y = .edit f u ∧ kept = .edit e t) ∧
    (∀ xs v y, (Step.group xs v).absorb y = (.group xs v, some y) ∧
      y.absorb (.group xs v) = (y, some (.group xs v))) ∧
    ∀ rest, t.sealed = false →
      History.push (.edit e t :: rest) (.edit f u) = back.toList ++ kept :: rest := by
  intro kept back
  have hleads : e.Leads p.buffer.text (e.apply p).buffer.text := Edit.leads_apply hat hp he
  have hleads' : f.Leads (e.apply p).buffer.text (f.apply (e.apply p)).buffer.text :=
    Edit.leads_apply hat' hleads.2.1 hf
  refine ⟨fun hback => ?_, fun y hy => absorb_rejected hy, fun xs v y => ?_, fun rest hsealed => ?_⟩
  · have hm : (Step.edit e t).merge? (.edit f u) = some kept := merge?_of_absorbed hback
    have hkept : kept.Leads p.buffer.text (f.apply (e.apply p)).buffer.text :=
      (Step.Leads.merge? (x := .edit e t) (y := .edit f u) hleads hleads' hm).1
    have hredo : (kept.redo p).buffer.text = (f.apply (e.apply p)).buffer.text :=
      text_redo kept hkept rfl
    have hfirst : ((Step.edit e t).redo p).buffer.text = (e.apply p).buffer.text :=
      text_redo (.edit e t) hleads rfl
    have hsecond : ((Step.edit f u).redo ((Step.edit e t).redo p)).buffer.text =
        (f.apply (e.apply p)).buffer.text := text_redo (.edit f u) hleads' hfirst
    exact ⟨hredo.trans hsecond.symm, fun q hq => text_undo kept hkept (hq.trans hredo),
      trace_of_merge? hm⟩
  · exact ⟨absorb_group_left xs v y, absorb_group_right y xs v⟩
  · rw [History.push_cons, if_neg]
    simpa [sealed, trace] using hsealed

/-- Backspace over a break and the letter in front of it, in a text whose letters are not all of one
byte. -/
theorem Step.absorb_sound_backspace :
    let p : Pane := ⟨Buffer.ofText ['λ', 'é', '\n', 'b'], ⟨3, 3⟩⟩
    let e : Edit := ⟨2, [], ['\n']⟩
    let f : Edit := ⟨1, [], ['é']⟩
    let t : Trace := ⟨some (⟨3, 3⟩), some (⟨2, 2⟩), false⟩
    let u : Trace := ⟨some (⟨2, 2⟩), some (⟨1, 1⟩), false⟩
    (Step.edit e t).absorb (.edit f u) =
        (.edit ⟨1, [], ['é', '\n']⟩ ⟨some (⟨3, 3⟩), some (⟨1, 1⟩), false⟩, none) ∧
      ((Step.edit ⟨1, [], ['é', '\n']⟩ ⟨some (⟨3, 3⟩), some (⟨1, 1⟩), false⟩).redo
        p).buffer.text = ['λ', 'b'] := by
  intro p e f t u
  have h := Step.absorb_sound (e := e) (f := f) (p := p) t u (by decide +kernel) (by decide)
    (by decide) (by decide +kernel) (by decide +kernel)
  have hmerge : (Step.edit e t).absorb (.edit f u) =
      (.edit ⟨1, [], ['é', '\n']⟩ ⟨some (⟨3, 3⟩), some (⟨1, 1⟩), false⟩, none) := rfl
  refine ⟨hmerge, ?_⟩
  have hredo := (h.1 (by rw [hmerge])).1
  rw [hmerge] at hredo
  exact hredo.trans (by decide +kernel)

end StructEdit
