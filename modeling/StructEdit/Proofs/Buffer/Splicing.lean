import StructEdit.Proofs.Buffer.Settled
import StructEdit.Proofs.Document.Work

/-!
# Edits as splices of the text

A change of a buffer takes the characters between two offsets out of the text and puts others in
their place. As long as no break of the new text stands behind two returns, these are the new text
with its breaks normalised.

Normalising takes one return from each break. A break behind several of them takes as many passes:
`\r\r\n` becomes `\r\n`, and only a second pass makes it `\n`.

An insertion normalises the breaks three times: when it is asked for, when it is carried out, and
when the text is split into lines. The length that it reports is taken after the first time, the
text that it records after the second, and what the buffer holds comes out of the third. A break
behind two returns is a longer one in the first than in the second, and a break behind three is
longer there than in the third. At the end of the buffer the first difference does not show, since
nothing stands behind that could come in.
-/
namespace StructEdit
open Text

namespace Text

/-! ## Breaks behind several returns -/

/-- A line break behind `k` carriage returns. -/
def longBreak (k : Nat) : Text := List.replicate k '\r' ++ ['\n']

theorem longBreak_succ (k : Nat) : longBreak (k + 1) = '\r' :: longBreak k := by
  simp [longBreak, List.replicate_succ]

theorem normalizeBreaks_sublist (s : Text) : List.Sublist (normalizeBreaks s) s := by
  fun_induction normalizeBreaks s with
  | case1 => exact .slnil
  | case2 s ih => exact (ih.cons_cons '\n').cons '\r'
  | case3 c s _ ih => exact ih.cons_cons c

theorem longBreak_zero_prefix_normalizeBreaks (s : Text) :
    longBreak 0 <+: normalizeBreaks s ↔ longBreak 0 <+: s ∨ longBreak 1 <+: s := by
  fun_cases normalizeBreaks s with
  | case1 => simp [longBreak]
  | case2 s => simp [longBreak]
  | case3 c s hne =>
    have hfirst : ¬longBreak 1 <+: c :: s := by
      rintro ⟨t, ht⟩
      obtain ⟨hc, hs⟩ := List.cons.inj ht
      exact hne t hc.symm hs.symm
    rw [or_iff_left hfirst]
    simp [longBreak]

/-- A pass over the text takes one return from the breaks that have more than one. -/
theorem longBreak_prefix_normalizeBreaks (k : Nat) (s : Text) :
    longBreak (k + 1) <+: normalizeBreaks s ↔ longBreak (k + 2) <+: s := by
  induction k generalizing s with
  | zero =>
    fun_cases normalizeBreaks s with
    | case1 => simp [longBreak]
    | case2 s => simp [longBreak]
    | case3 c s hne =>
      rw [longBreak_succ, longBreak_succ, List.cons_prefix_cons, List.cons_prefix_cons,
        longBreak_zero_prefix_normalizeBreaks]
      refine and_congr_right fun hc => or_iff_right ?_
      rintro ⟨t, ht⟩
      exact hne t hc.symm ht.symm
  | succ k ih =>
    fun_cases normalizeBreaks s with
    | case1 => simp [longBreak]
    | case2 s => simp [longBreak_succ]
    | case3 c s hne =>
      rw [longBreak_succ, longBreak_succ (k + 2), List.cons_prefix_cons, List.cons_prefix_cons, ih]

theorem longBreak_infix_normalizeBreaks (k : Nat) (s : Text) :
    longBreak (k + 1) <:+: normalizeBreaks s ↔ longBreak (k + 2) <:+: s := by
  fun_induction normalizeBreaks s with
  | case1 => simp [longBreak]
  | case2 s ih =>
    rw [List.infix_cons_iff, List.infix_cons_iff, List.infix_cons_iff, ih]
    simp [longBreak_succ]
  | case3 c s hne ih =>
    have hfirst := longBreak_prefix_normalizeBreaks k (c :: s)
    rw [normalizeBreaks.eq_3 c s hne] at hfirst
    rw [List.infix_cons_iff, List.infix_cons_iff, ih, hfirst]

/-- A text that keeps its characters has no break to normalise, even with more text behind. -/
theorem not_infix_of_normalizeBreaks_append {s t : Text} (h : normalizeBreaks s ++ t = s) :
    ¬longBreak 1 <:+: s := by
  fun_induction normalizeBreaks s with
  | case1 => simp [longBreak]
  | case2 s ih => simp at h
  | case3 c s hne ih =>
    rw [List.infix_cons_iff, not_or]
    refine ⟨?_, ih (List.cons.inj h).2⟩
    rintro ⟨u, hu⟩
    obtain ⟨hc, hs⟩ := List.cons.inj hu
    exact hne u hc.symm hs.symm

theorem normalizeBreaks_eq_self_iff {s : Text} : normalizeBreaks s = s ↔ ¬longBreak 1 <:+: s := by
  constructor
  · intro h
    exact not_infix_of_normalizeBreaks_append (t := []) (by rw [List.append_nil, h])
  · intro h
    fun_induction normalizeBreaks s with
    | case1 => rfl
    | case2 s ih => exact absurd ⟨[], s, rfl⟩ h
    | case3 c s hne ih => rw [ih fun hs => h (hs.trans (List.suffix_cons c s).isInfix)]

/-! ## Passes and lengths -/

theorem length_normalizeBreaks_eq_iff {s : Text} :
    (normalizeBreaks s).length = s.length ↔ normalizeBreaks s = s := by
  constructor
  · exact (normalizeBreaks_sublist s).eq_of_length
  · exact congrArg List.length

/-- Two more passes keep the length exactly when there is nothing to do for the first. -/
theorem length_normalizeBreaks_twice_eq_iff {s : Text} :
    (normalizeBreaks (normalizeBreaks s)).length = s.length ↔ normalizeBreaks s = s := by
  have hfirst := (normalizeBreaks_sublist s).length_le
  have hsecond := (normalizeBreaks_sublist (normalizeBreaks s)).length_le
  rw [← length_normalizeBreaks_eq_iff]
  constructor
  · intro h
    omega
  · intro h
    rw [length_normalizeBreaks_eq_iff] at h
    rw [h, h]

/-- A text that is cut to a length it had before a pass is the text after the pass only if another
pass keeps it, and nothing more of what stands behind comes in. -/
theorem take_normalizeBreaks_append_eq_iff {s rest : Text} :
    normalizeBreaks s = (normalizeBreaks (normalizeBreaks s) ++ rest).take s.length ↔
      normalizeBreaks (normalizeBreaks s) = normalizeBreaks s ∧
        (normalizeBreaks s = s ∨ rest = []) := by
  have hfirst := (normalizeBreaks_sublist s).length_le
  have hsecond := (normalizeBreaks_sublist (normalizeBreaks s)).length_le
  rw [List.take_append, List.take_of_length_le (Nat.le_trans hsecond hfirst)]
  constructor
  · intro h
    have hclean : normalizeBreaks (normalizeBreaks s) = normalizeBreaks s :=
      normalizeBreaks_eq_self_iff.2 (not_infix_of_normalizeBreaks_append h.symm)
    refine ⟨hclean, ?_⟩
    rw [hclean, List.self_eq_append_right, List.take_eq_nil_iff] at h
    rcases h with hlength | hrest
    · exact Or.inl (length_normalizeBreaks_eq_iff.1 (by omega))
    · exact Or.inr hrest
  · rintro ⟨hclean, hsame | rfl⟩
    · rw [hclean, hsame]
      simp
    · rw [hclean]
      simp

end Text

namespace Buffer

variable {b : Buffer} {n : Nat}

theorem maxOffset_insertion (h : n ≤ b.maxOffset) (s : Text) :
    (b.replace n n s).maxOffset =
      b.maxOffset + (normalizeBreaks (normalizeBreaks s)).length := by
  rw [maxOffset_replace]
  omega

/-- What is found from the place of an insertion on: the new characters, and then what stood
there before. -/
theorem slice_insertion (h : n ≤ b.maxOffset) (s : Text) (k : Nat) :
    (b.replace n n s).slice n (n + k) =
      (normalizeBreaks (normalizeBreaks s) ++ b.text.drop n).take k := by
  have hlength : (b.text.take n).length = n := by
    rw [List.length_take, b.length_text, Nat.min_eq_left h]
  rw [slice_of_le _ (Nat.le_add_right n k), text_replace, Nat.min_self, Nat.max_self,
    List.append_assoc, List.drop_take, List.drop_left' hlength, Nat.add_sub_cancel_left]

end Buffer

/-- A change is a splice of the characters. Whatever has been done to a new buffer, flushed or not, the
characters between the two offsets, each held inside the buffer, give way to the new text with
its breaks normalised, if no break of that text stands behind two returns. There is a line
afterwards, no line holds a break, and the lengths of the lines are those of their texts. -/
theorem text_change_runAll {d : Document}
    (hd : d.buffer = .empty ∨ ∃ s, d.buffer = .ofText s) (ops : List BufferOp) (i j : Nat)
    {s : Text} (hs : ¬['\r', '\r', '\n'] <:+: s) (before after : Option Selection) :
    let d₀ := BufferOp.runAll ops d
    let b := (d₀.change i j s before after).buffer
    b.text = d₀.text.take (min (min i j) d₀.maxOffset) ++ normalizeBreaks s ++
      d₀.text.drop (min (max i j) d₀.maxOffset) ∧
    (∀ l ∈ b.lines, '\n' ∉ l.text ∧ l.length = l.text.length) ∧ 0 < b.lineCount ∧
    b.maxOffset = b.text.length := by
  intro d₀ b
  have hb : b = d₀.buffer.replace i j s := Document.buffer_change d₀ i j s before after
  have hstart : d.buffer.Unbroken := by
    rcases hd with hd | ⟨s, hd⟩ <;> rw [hd]
    · exact Buffer.unbroken_empty
    · exact .ofText s
  have hbroken : b.Unbroken := hb ▸ (BufferOp.unbroken_runAll hstart ops).replace i j s
  have hclean : normalizeBreaks (normalizeBreaks s) = normalizeBreaks s :=
    normalizeBreaks_eq_self_iff.2 fun h => hs ((longBreak_infix_normalizeBreaks 0 s).1 h)
  have htext : b.text = d₀.text.take (min i j) ++ normalizeBreaks s ++ d₀.text.drop (max i j) := by
    rw [hb, Buffer.text_replace, hclean]
    rfl
  have hlength : d₀.text.length = d₀.maxOffset := d₀.buffer.length_text
  refine ⟨?_, fun l hl => ⟨hbroken l hl, rfl⟩, List.length_pos_iff.2 b.lines_ne_nil,
    b.length_text.symm⟩
  rw [htext, ← hlength, List.take_eq_take_min, List.drop_eq_drop_min]

/-- The larger offset comes first and lies behind the end of an unflushed buffer, and the text has a
break with a return. -/
theorem text_change_runAll_crlf :
    let d₀ := BufferOp.runAll [.deleteAt 1 1 none none] (.ofText ['a', '\n', '"', 'b'])
    d₀.text = ['a', '"', 'b'] ∧ d₀.buffer.dirty ≠ [] ∧
      (d₀.change 9 2 ['\r', '\n', 'x'] none none).text = ['a', '"', '\n', 'x'] := by
  intro d₀
  have hd : (Document.ofText ['a', '\n', '"', 'b']).buffer = .empty ∨
      ∃ s, (Document.ofText ['a', '\n', '"', 'b']).buffer = .ofText s := Or.inr ⟨_, rfl⟩
  have h := (text_change_runAll hd [.deleteAt 1 1 none none] 9 2 (s := ['\r', '\n', 'x'])
    (by decide) none none).1
  have htext : d₀.text = ['a', '"', 'b'] := by decide +kernel
  refine ⟨htext, by decide +kernel, h.trans ?_⟩
  rw [htext]
  decide +kernel

/-- What an insertion reports. It reports the room that the text took in the buffer exactly when no
break of the text stands behind two returns. The text of the step that it records is what is found
over the reported length exactly when no break stands behind three returns, and in case one
stands behind two, the insertion is at the end of the buffer. -/
theorem insertAt_reports_iff (d : Document) {offset : Nat} (h : offset ≤ d.maxOffset) (s : Text)
    (before after : Option Selection) :
    let r := d.insertAt offset s before after
    let e : Edit := ⟨offset, normalizeBreaks (normalizeBreaks s), []⟩
    (r.1.maxOffset = d.maxOffset + r.2 ↔ ¬['\r', '\r', '\n'] <:+: s) ∧
    (d.recording = true → r.1.history = d.history.add (.edit e ⟨before, after, false⟩)) ∧
    (e.inserted = r.1.buffer.slice offset (offset + r.2) ↔
      ¬['\r', '\r', '\r', '\n'] <:+: s ∧
        (¬['\r', '\r', '\n'] <:+: s ∨ offset = d.maxOffset)) := by
  intro r e
  have hbuffer : r.1.buffer = d.buffer.replace offset offset (normalizeBreaks s) :=
    Document.buffer_change d offset offset (normalizeBreaks s) before after
  have htwo : normalizeBreaks (normalizeBreaks s) = normalizeBreaks s ↔
      ¬['\r', '\r', '\n'] <:+: s :=
    normalizeBreaks_eq_self_iff.trans (not_congr (longBreak_infix_normalizeBreaks 0 s))
  have hthree : normalizeBreaks (normalizeBreaks (normalizeBreaks s)) =
      normalizeBreaks (normalizeBreaks s) ↔ ¬['\r', '\r', '\r', '\n'] <:+: s :=
    normalizeBreaks_eq_self_iff.trans (not_congr
      ((longBreak_infix_normalizeBreaks 0 _).trans (longBreak_infix_normalizeBreaks 1 s)))
  have hend : d.buffer.text.drop offset = [] ↔ offset = d.maxOffset := by
    rw [List.drop_eq_nil_iff, d.buffer.length_text]
    exact ⟨fun hle => Nat.le_antisymm h hle, fun heq => Nat.le_of_eq heq.symm⟩
  refine ⟨?_, fun hrec => ?_, ?_⟩
  · rw [Document.maxOffset, hbuffer, Buffer.maxOffset_insertion h, ← htwo,
      ← length_normalizeBreaks_twice_eq_iff]
    exact Nat.add_left_cancel_iff
  · have hhistory := Document.history_change hrec offset offset (normalizeBreaks s) before after
    rw [Nat.min_self, Buffer.slice_self] at hhistory
    exact hhistory
  · rw [hbuffer, Buffer.slice_insertion h, ← htwo, ← hthree, ← hend]
    exact take_normalizeBreaks_append_eq_iff

/-- A break behind two returns at the end of the buffer: the report is wrong, and the record is right
nevertheless. -/
theorem insertAt_reports_iff_atEnd :
    let d := { Document.ofText ['a', 'b'] with recording := true }
    let r := d.insertAt 2 ['\r', '\r', '\n'] none none
    2 ≤ d.maxOffset ∧ d.recording = true ∧ ¬r.1.maxOffset = d.maxOffset + r.2 ∧
      r.1.history = d.history.add (.edit ⟨2, ['\n'], []⟩ ⟨none, none, false⟩) ∧
      ['\n'] = r.1.buffer.slice 2 (2 + r.2) := by
  intro d r
  have hle : 2 ≤ d.maxOffset := by decide +kernel
  obtain ⟨hreport, hrecord, hfound⟩ :=
    insertAt_reports_iff d hle ['\r', '\r', '\n'] none none
  refine ⟨hle, rfl, fun h => hreport.1 h (by decide), hrecord rfl, hfound.2 ⟨by decide, Or.inr ?_⟩⟩
  decide +kernel

/-- Between two letters, a break behind two returns takes one place and is reported to take two. Behind
three returns, the record has a return that the buffer does not hold. -/
theorem insertAt_overreports :
    let d := { Document.ofText ['a', 'b'] with recording := true }
    let r := d.insertAt 1 ['\r', '\r', '\n'] none none
    let r' := d.insertAt 1 ['\r', '\r', '\r', '\n'] none none
    r.2 = 2 ∧ r.1.text = ['a', '\n', 'b'] ∧ r.1.maxOffset ≠ d.maxOffset + r.2 ∧
      r'.1.text = ['a', '\n', 'b'] ∧ r'.1.buffer.slice 1 (1 + r'.2) = ['\n', 'b'] ∧
      r'.1.history = d.history.add (.edit ⟨1, ['\r', '\n'], []⟩ ⟨none, none, false⟩) := by
  intro d r r'
  refine ⟨?_, ?_, ?_, ?_, ?_, rfl⟩
  · decide +kernel
  · decide +kernel
  · decide +kernel
  · decide +kernel
  · decide +kernel

end StructEdit
