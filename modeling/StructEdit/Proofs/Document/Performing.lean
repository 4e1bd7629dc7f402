import StructEdit.Proofs.Cursor.Motions
import StructEdit.Proofs.Document.Work

/-!
# What each command performs

Each editing command leaves the document alone or performs work in the sense of
`Work`. Two things have to be seen for each of them. The places it changes exist when it comes to
them: edits in several places go from the back to the front, so the offsets in front are
still there. And the selection lies in the text at the end, also where a command does not
move it: carrying a delimiter to another place does not make the text shorter.
-/
namespace StructEdit

namespace Document

variable {strict : Prop} {d : Document}

/-! ## Texts that may be put in -/

theorem returnsInBreaks_of_mem_text {s : Text} (hd : strict → '\r' ∉ d.text)
    (h : ∀ c ∈ s, c ∈ d.text ∨ c ≠ '\r') : strict → s.ReturnsInBreaks := by
  intro hs
  refine Text.returnsInBreaks_of_not_mem fun hm => ?_
  rcases h _ hm with ht | hne
  · exact hd hs ht
  · exact hne rfl

theorem returnsInBreaks_normalizeBreaks {s : Text} (h : strict → s.ReturnsInBreaks) :
    strict → (Text.normalizeBreaks s).ReturnsInBreaks :=
  fun hs => Text.returnsInBreaks_of_not_mem (Text.not_mem_return_normalizeBreaks (h hs))

/-! ## Plain editing -/

theorem maxOffset_of_toPane {e : Document} (h : e.toPane = d.toPane) :
    e.maxOffset = d.maxOffset := congrArg (fun p : Pane => p.buffer.maxOffset) h

theorem fits_of_toPane {e : Document} (h : e.toPane = d.toPane) (hd : d.Fits) : e.Fits := by
  rw [Fits, maxOffset_of_toPane h]
  exact congrArg Pane.selection h ▸ hd

theorem performs_deleteSelection (hd : d.Fits) : Performs strict d d.deleteSelection := by
  refine Works.performs fun e he _ => ?_
  have hf := fits_of_toPane he hd
  dsimp only
  split
  · exact ⟨.refl, hf⟩
  · exact ⟨(Work.refl.deleteAt _ _ _ hf.lower_le).setCaret _, fits_setCaret _ _⟩

theorem performs_insert {s : Text} (hd : d.Fits) (hs : strict → s.ReturnsInBreaks) :
    Performs strict d (d.insert s) := by
  refine Works.performs fun e he hb => ?_
  have hf := fits_of_toPane he hd
  have hstart : Work strict e (if e.selection.isEmpty then e else e.deleteSelection) ∧
      (if e.selection.isEmpty then e else e.deleteSelection).Fits := by
    split
    · exact ⟨.refl, hf⟩
    · exact (performs_deleteSelection hf).work hb hf
  dsimp only
  generalize (if e.selection.isEmpty then e else e.deleteSelection) = f at hstart ⊢
  refine ⟨Work.keepColumn (Work.setCaret (.change _ _ hstart.1 ?_ ?_) _), fits_setCaret _ _⟩
  · rw [Nat.min_self]
    exact hstart.2.2
  · exact returnsInBreaks_normalizeBreaks (returnsInBreaks_normalizeBreaks hs)

/-- Deletes the selection, or else `count` characters from `start` on if `guard` holds. -/
theorem works_deletion {guard : Document → Prop} [∀ e, Decidable (guard e)]
    {start caret : Document → Nat} {before after : Document → Option Selection} (hd : d.Fits)
    (hstart : ∀ e : Document, guard e → e.Fits → start e ≤ e.maxOffset) :
    Works strict d fun e =>
      (if e.selection.isEmpty = false then e.deleteSelection
      else if guard e then
        (e.deleteAt (start e) 1 (before e) (after e)).setCaret (caret e)
      else e).keepColumn := by
  intro e he hb
  have hf := fits_of_toPane he hd
  dsimp only
  split
  · obtain ⟨hw, hfits⟩ := (performs_deleteSelection hf).work hb hf
    exact ⟨hw.keepColumn, hfits.keepColumn⟩
  · split
    · rename_i hg
      exact ⟨((Work.refl.deleteAt _ _ _ (hstart e hg hf)).setCaret _).keepColumn,
        fits_setCaret _ _⟩
    · exact ⟨Work.refl.keepColumn, hf⟩

theorem performs_backspace (hd : d.Fits) : Performs strict d d.backspace :=
  Works.performs (works_deletion hd fun _ _ hf => Nat.le_trans (Nat.sub_le _ _) hf.2)

theorem performs_delete (hd : d.Fits) : Performs strict d d.delete :=
  Works.performs (works_deletion hd fun _ _ hf => hf.2)

theorem performs_replaceAll {s : Text} (hs : strict → s.ReturnsInBreaks) :
    Performs strict d (d.replaceAll s) := by
  refine Works.performs fun e _ _ => ?_
  refine ⟨Work.keepColumn (Work.setCaret (Work.splice .refl ?_ ?_) _), fits_setCaret _ _⟩
  · rw [Nat.zero_min]
    exact Nat.zero_le _
  · exact returnsInBreaks_normalizeBreaks hs

/-! ## Lists -/

/-- One splice, after which the caret is put somewhere. -/
theorem performs_splice {i j caret : Nat} {s : Text} (hi : min i j ≤ d.maxOffset)
    (hs : strict → s.ReturnsInBreaks) :
    Performs strict d (d.perform fun e => (e.splice i j s).setCaret caret) := by
  refine Works.performs fun e he _ => ?_
  rw [← maxOffset_of_toPane he] at hi
  exact ⟨(Work.refl.splice hi hs).setCaret caret, fits_setCaret _ _⟩

theorem performs_wrap {opener closer : Text} (hd : d.Fits) (ho : strict → opener.ReturnsInBreaks)
    (hc : strict → closer.ReturnsInBreaks) : Performs strict d (d.wrap opener closer).1 := by
  simp only [wrap]
  split
  · exact performs_self strict d
  · simp only [Outcome.done]
    refine Works.performs fun e he _ => ?_
    have hin := d.buffer.in_cursorAt d.selection.upper
    have hstop : (if d.selection.isEmpty then
        ((d.buffer.cursorAt d.selection.upper).forwardSexp true).cursor.start
        else d.selection.upper) ≤ e.maxOffset := by
      rw [maxOffset_of_toPane he]
      split
      · exact (hin.forwardSexp true).start_le
      · exact Nat.max_le.2 ⟨hd.1, hd.2⟩
    have hlower : d.selection.lower ≤ e.maxOffset := by
      rw [maxOffset_of_toPane he]
      exact hd.lower_le
    have hw := (Work.refl.insertion hstop hc).insertion
      (Nat.le_trans hlower (e.maxOffset_le_splice _ closer)) ho
    generalize (if d.selection.isEmpty then
      ((d.buffer.cursorAt d.selection.upper).forwardSexp true).cursor.start
      else d.selection.upper) = stop at hw ⊢
    split
    · exact ⟨hw.setCaret _, fits_setCaret _ _⟩
    · exact ⟨hw.select _, fits_select _ _⟩

/-- What `around` gives lies in the text. -/
theorem le_maxOffset_of_around {b : Buffer} {offset back ahead : Nat}
    (h : b.around offset back ahead ≠ []) : back ≤ offset ∧ offset + ahead ≤ b.maxOffset := by
  unfold Buffer.around Buffer.sliceWithin at h
  split at h
  · rename_i hback
    split at h
    · exact absurd rfl h
    · exact ⟨hback, by omega⟩
  · exact absurd rfl h

theorem performs_split (hd : d.Fits) (hr : strict → '\r' ∉ d.text) :
    Performs strict d d.split := by
  simp only [split]
  split
  · refine performs_splice ?_ fun _ => Text.returnsInBreaks_of_not_mem (by decide)
    rw [Nat.min_self]
    split
    · rename_i ha
      exact (le_maxOffset_of_around (by rw [ha]; simp)).2
    · exact hd.2
  · have hin := (d.buffer.in_cursorAt d.caret).backwardSpace true
    split
    · exact performs_self strict d
    · rename_i o ho
      split
      · exact performs_self strict d
      · rename_i e he
        have hoin := hin.backwardList? ho
        have hein := hoin.forwardList? he
        have hprev : o.prevKind ≠ .lineEnd := by
          rw [(Cursor.backwardList?_eq_some ho).2]
          simp
        obtain ⟨htok, hkind⟩ := Cursor.prev_of_prevKind hprev
        refine performs_splice ?_ (returnsInBreaks_of_mem_text hr fun x hx => ?_)
        · exact Nat.le_trans (Nat.min_le_left _ _) hin.start_le
        · rcases List.mem_append.1 hx with hx | hx
          · exact Or.inl (hein.mem_text (by rw [(Cursor.forwardList?_eq_some he).2]; simp) hx)
          · rcases List.mem_cons.1 hx with rfl | hx
            · exact Or.inr (by decide)
            · refine Or.inl (hoin.prev.mem_text (by rw [hkind]; exact hprev) ?_)
              rwa [Cursor.raw, htok]

theorem le_of_joint? {left right : Token} {gapStart gapStop : Nat} {j : Joint}
    (h : joint? left right gapStart gapStop = some j) :
    j.start ≤ gapStart ∧ '\r' ∉ j.text := by
  unfold joint? at h
  split at h
  all_goals first
    | (obtain rfl := Option.some.inj h; exact ⟨Nat.sub_le _ _, by simp⟩)
    | skip
  · split at h
    · obtain rfl := Option.some.inj h
      exact ⟨Nat.sub_le _ _, by simp⟩
    · simp at h
  · simp at h

theorem performs_join : Performs strict d d.join.1 := by
  have hin := (d.buffer.in_cursorAt d.caret).backwardSpace true
  simp only [join]
  split
  · exact performs_self strict d
  · split
    · exact performs_self strict d
    · rename_i j hj
      obtain ⟨hle, htext⟩ := le_of_joint? hj
      exact performs_splice (Nat.le_trans (Nat.min_le_left _ _) (Nat.le_trans hle hin.start_le))
        fun _ => Text.returnsInBreaks_of_not_mem htext

theorem performs_spliceAt (offset : Nat) : Performs strict d (d.spliceAt offset).1 := by
  have hin := d.buffer.in_cursorAt offset
  simp only [spliceAt]
  split
  · exact performs_self strict d
  · split
    · exact performs_self strict d
    · rename_i o ho
      split
      · exact performs_self strict d
      · rename_i c hc
        split
        · simp only [Outcome.done]
          refine Works.performs fun e he _ => ?_
          have hoin := hin.backwardList? ho
          have hcin := hoin.forwardList? hc
          have hmax := maxOffset_of_toPane he
          have hcle : c.start ≤ e.maxOffset := hmax ▸ hcin.start_le
          have hole : o.start ≤ (e.splice c.start (c.start + c.here.token.length) []).maxOffset :=
            Nat.le_trans (hoin.start_mono hcin (Cursor.before_length_le_forwardList? hc))
              (le_maxOffset_splice [] (by omega) hcle)
          exact ⟨((Work.refl.deletion (by omega)).deletion (by omega)).setCaret _,
            fits_setCaret _ _⟩
        · exact performs_self strict d

theorem performs_killBackward (offset : Nat) : Performs strict d (d.killBackward offset).1 := by
  have hin := d.buffer.in_cursorAt offset
  simp only [killBackward]
  split
  · exact performs_self strict d
  · split
    · exact performs_self strict d
    · rename_i o ho
      exact performs_splice (Nat.le_trans (Nat.min_le_left _ _) (hin.backwardList? ho).start_le)
        fun _ => trivial

theorem performs_killForward (offset : Nat) : Performs strict d (d.killForward offset).1 := by
  have hin := d.buffer.in_cursorAt offset
  simp only [killForward]
  split
  · exact performs_self strict d
  · split
    · exact performs_self strict d
    · rename_i c hc
      refine performs_splice (Nat.le_trans (Nat.min_le_right _ _) (hin.forwardList? hc).start_le)
        fun _ => Text.returnsInBreaks_of_not_mem ?_
      split <;> simp

/-- A kill and then a splice, in one transaction. -/
theorem performs_killing (kill : Document → Outcome Nat) (hd : d.Fits)
    (hk : ∀ e : Document, Performs strict e (kill e).1) :
    Performs strict d
      (d.transaction fun e => (kill e).andThen fun e offset => e.spliceAt offset).1 := by
  rw [transaction_fst]
  refine Works.performs fun e he hb => ?_
  obtain ⟨hw, hf⟩ := (hk e).work hb (fits_of_toPane he hd)
  unfold Outcome.andThen
  split
  · rename_i e' offset hkill
    rw [hkill] at hw hf
    obtain ⟨hw', hf'⟩ := (performs_spliceAt offset).work (hw.busy hb) hf
    exact ⟨hw.trans hw', hf'⟩
  · rename_i e' r hkill
    rw [hkill] at hw hf
    exact ⟨hw, hf⟩

theorem performs_spliceKillingBackward (hd : d.Fits) :
    Performs strict d d.spliceKillingBackward.1 :=
  performs_killing (fun e => e.killBackward d.caret) hd fun _ => performs_killBackward d.caret

theorem performs_spliceKillingForward (hd : d.Fits) :
    Performs strict d d.spliceKillingForward.1 :=
  performs_killing (fun e => e.killForward d.caret) hd fun _ => performs_killForward d.caret

/-! ## Carrying delimiters -/

/-- The raw text of a token may be put in again. -/
theorem returnsInBreaks_raw {c : Cursor} (hc : c.In d.buffer) (hr : strict → '\r' ∉ d.text)
    (hk : c.kind ≠ .lineEnd) : strict → c.raw.ReturnsInBreaks :=
  returnsInBreaks_of_mem_text hr fun _ hx => Or.inl (hc.mem_text hk hx)

theorem performs_carryForward {delimiter : Text} {source target : Nat} (hd : d.Fits)
    (hs : source ≤ d.maxOffset) (ht : target ≤ d.maxOffset) (hn : '\n' ∉ delimiter)
    (hr : strict → delimiter.ReturnsInBreaks) :
    Performs strict d (d.carryForward delimiter source target) := by
  refine Works.performs fun e he _ => ?_
  have hf := fits_of_toPane he hd
  rw [← maxOffset_of_toPane he] at hs ht
  have hgrow := e.maxOffset_le_splice target delimiter
  refine ⟨(Work.refl.insertion ht hr).deletion (by omega), ?_⟩
  rw [Fits, splice, selection_change, splice, selection_change]
  refine Selection.Within.mono hf ?_
  have hclean := Text.normalizeBreaks_of_not_mem_newline hn
  rw [maxOffset_change, Buffer.maxOffset_replace, buffer_change, Buffer.maxOffset_replace, hclean,
    hclean]
  simp only [maxOffset] at hs ht ⊢
  simp only [Text.normalizeBreaks, List.length_nil]
  omega

theorem performs_carryBackward {delimiter : Text} {source target : Nat} (hd : d.Fits)
    (hs : source ≤ d.maxOffset) (ht : target ≤ source) (hn : '\n' ∉ delimiter)
    (hr : strict → delimiter.ReturnsInBreaks) :
    Performs strict d (d.carryBackward delimiter source target) := by
  refine Works.performs fun e he _ => ?_
  have hf := fits_of_toPane he hd
  rw [← maxOffset_of_toPane he] at hs
  refine ⟨(Work.refl.deletion (by omega)).insertion
    (le_maxOffset_splice [] (by omega) (by omega)) hr, ?_⟩
  rw [Fits, splice, selection_change, splice, selection_change]
  refine Selection.Within.mono hf ?_
  have hclean := Text.normalizeBreaks_of_not_mem_newline hn
  rw [maxOffset_change, Buffer.maxOffset_replace, buffer_change, Buffer.maxOffset_replace, hclean,
    hclean]
  simp only [maxOffset] at hs ⊢
  simp only [Text.normalizeBreaks, List.length_nil]
  omega

/-- The opening bracket behind the place that a motion back out of expressions leads to. -/
theorem prev_of_backwardList? {c inside : Cursor} (hc : c.In d.buffer)
    (h : c.backwardList? = some inside) :
    inside.prev.In d.buffer ∧ inside.prev.kind = .opening := by
  have hk := (Cursor.backwardList?_eq_some h).2
  refine ⟨(hc.backwardList? h).prev, ?_⟩
  rw [(Cursor.prev_of_prevKind (by rw [hk]; simp)).2, hk]

theorem performs_slurpForward (hd : d.Fits) (hu : d.buffer.Unbroken) (hr : strict → '\r' ∉ d.text) :
    Performs strict d d.slurpForward := by
  unfold slurpForward
  split
  · exact performs_self strict d
  · rename_i e he
    have hin := (d.buffer.in_cursorAt d.caret).forwardList? he
    have hk : e.kind ≠ .lineEnd := by
      rw [(Cursor.forwardList?_eq_some he).2]
      simp
    dsimp only
    split
    · exact performs_carryForward hd hin.start_le
        ((hin.next.forwardSexp false).backwardSpace false).start_le
        (hin.newline_not_mem_raw hu hk) (returnsInBreaks_raw hin hr hk)
    · exact performs_self strict d

theorem performs_slurpBackward (hd : d.Fits) (hu : d.buffer.Unbroken)
    (hr : strict → '\r' ∉ d.text) : Performs strict d d.slurpBackward := by
  unfold slurpBackward
  split
  · exact performs_self strict d
  · rename_i inside hi
    obtain ⟨hin, hopen⟩ := prev_of_backwardList? (d.buffer.in_cursorAt d.caret) hi
    have hk : inside.prev.kind ≠ .lineEnd := by
      rw [hopen]
      simp
    dsimp only
    split
    · rename_i hfound
      have hstay : ((inside.prev.backwardSexp false).cursor.forwardSpace false).start ≤
          inside.prev.start := by
        rw [Cursor.forwardSpace_of_not_skipped (Cursor.backwardSexp_found_not_skipped hfound)]
        exact (hin.backwardSexp false).start_mono hin (Cursor.before_backwardSexp_le false _)
      exact performs_carryBackward hd hin.start_le hstay (hin.newline_not_mem_raw hu hk)
        (returnsInBreaks_raw hin hr hk)
    · exact performs_self strict d

theorem performs_barfForward (hd : d.Fits) (hu : d.buffer.Unbroken) (hr : strict → '\r' ∉ d.text) :
    Performs strict d d.barfForward := by
  unfold barfForward
  split
  · exact performs_self strict d
  · rename_i e he
    have hin := (d.buffer.in_cursorAt d.caret).forwardList? he
    have hk : e.kind ≠ .lineEnd := by
      rw [(Cursor.forwardList?_eq_some he).2]
      simp
    dsimp only
    split
    · have hback : ((e.backwardSexp false).cursor.backwardSpace true).start ≤ e.start :=
        ((hin.backwardSexp false).backwardSpace true).start_mono hin
          (Nat.le_trans (Cursor.before_length_backwardSpace_le true _)
            (Cursor.before_backwardSexp_le false _))
      exact performs_carryBackward hd hin.start_le hback (hin.newline_not_mem_raw hu hk)
        (returnsInBreaks_raw hin hr hk)
    · exact performs_self strict d

theorem performs_barfBackward (hd : d.Fits) (hu : d.buffer.Unbroken)
    (hr : strict → '\r' ∉ d.text) : Performs strict d d.barfBackward := by
  unfold barfBackward
  split
  · exact performs_self strict d
  · rename_i inside hi
    have hinside := (d.buffer.in_cursorAt d.caret).backwardList? hi
    obtain ⟨hin, hopen⟩ := prev_of_backwardList? (d.buffer.in_cursorAt d.caret) hi
    have hk : inside.prev.kind ≠ .lineEnd := by
      rw [hopen]
      simp
    dsimp only
    split
    · exact performs_carryForward hd hin.start_le
        ((hinside.forwardSexp false).forwardSpace false).start_le
        (hin.newline_not_mem_raw hu hk) (returnsInBreaks_raw hin hr hk)
    · exact performs_self strict d

/-! ## Raising and convoluting -/

theorem performs_raise (hr : strict → '\r' ∉ d.text) : Performs strict d d.raise := by
  have hin := (d.buffer.in_cursorAt d.caret).forwardSpace true
  simp only [raise]
  split
  · exact performs_self strict d
  · split
    · have ho : ((d.cursor.forwardSpace true).backwardList?.getD
          (d.cursor.forwardSpace true)).In d.buffer := by
        cases h : (d.cursor.forwardSpace true).backwardList? with
        | none => exact hin
        | some o => exact hin.backwardList? h
      exact performs_splice (Nat.le_trans (Nat.min_le_left _ _) ho.prev.start_le)
        (returnsInBreaks_of_mem_text hr fun _ hx => Or.inl (Buffer.mem_text_of_mem_slice hx))
    · exact performs_self strict d

theorem nesting?_eq_some {c : Cursor} {n : Nesting} (h : nesting? c = some n) :
    ∃ inside outside : Cursor, c.backwardList? = some inside ∧
      c.forwardList? = some n.innerCloser ∧ n.innerOpener = inside.prev ∧
      n.innerOpener.backwardList? = some outside ∧
      outside.backwardUpList? = some n.outerOpener ∧
      n.innerOpener.forwardList? = some n.outerCloser := by
  simp only [nesting?, Option.bind_eq_bind, Option.bind_eq_some_iff] at h
  obtain ⟨inside, hinside, innerCloser, hclose, outside, houtside, outerOpener, hup, outerCloser,
    hout, heq⟩ := h
  obtain rfl := Option.some.inj heq
  exact ⟨inside, outside, hinside, hclose, rfl, houtside, hup, hout⟩

theorem performs_convolute (hr : strict → '\r' ∉ d.text) :
    Performs strict d d.convolute := by
  unfold convolute
  split
  · exact performs_self strict d
  · split
    · exact performs_self strict d
    · rename_i n hn
      obtain ⟨inside, outside, hinside, hclose, hopen, houtside, hup, hout⟩ := nesting?_eq_some hn
      have hin := d.buffer.in_cursorAt d.caret
      have hinner := (hin.backwardList? hinside).prev
      rw [← hopen] at hinner
      have hcloser := hin.forwardList? hclose
      have houter := (hinner.backwardList? houtside).backwardUpList? hup
      have hend := hinner.forwardList? hout
      have hback : n.innerOpener.before.length ≤ d.cursor.before.length :=
        hopen ▸ Nat.le_trans (Cursor.before_length_prev_le _)
          (Cursor.before_length_backwardList?_le hinside)
      have h₁ : n.outerOpener.start ≤ n.innerOpener.start :=
        houter.start_mono hinner (Nat.le_trans (Cursor.before_length_backwardUpList?_le hup)
          (Cursor.before_length_backwardList?_le houtside))
      have h₂ : n.innerOpener.start ≤ d.caret :=
        Nat.le_trans (hinner.start_mono hin hback) (d.buffer.start_cursorAt_le d.caret)
      have h₃ : n.innerOpener.start ≤ n.innerCloser.start :=
        hinner.start_mono hcloser
          (Nat.le_trans hback (Cursor.before_length_le_forwardList? hclose))
      have h₄ : n.innerCloser.start ≤ n.innerCloser.stop := by
        unfold Cursor.stop
        split
        · exact Nat.le_refl _
        · exact Nat.le_add_right _ _
      refine Works.performs fun e he _ => ?_
      have hmax := maxOffset_of_toPane he
      have hclosing : n.innerCloser.kind ≠ .lineEnd := by
        rw [(Cursor.forwardList?_eq_some hclose).2]
        simp
      have hopening : n.innerOpener.kind = .opening := by
        rw [hopen]
        exact (prev_of_backwardList? hin hinside).2
      have w₁ : Work strict e (e.splice n.outerCloser.stop n.outerCloser.stop n.innerCloser.raw) :=
        Work.refl.insertion (hmax ▸ hend.stop_le)
          (returnsInBreaks_raw hcloser hr hclosing)
      have m₁ := e.maxOffset_le_splice n.outerCloser.stop n.innerCloser.raw
      have w₂ := w₁.deletion (i := n.innerCloser.start) (j := n.innerCloser.stop)
        (Nat.le_trans (Nat.min_le_left _ _) (Nat.le_trans (hmax ▸ hcloser.start_le) m₁))
      have m₂ := le_maxOffset_splice (n := n.innerOpener.start)
        (d := e.splice n.outerCloser.stop n.outerCloser.stop n.innerCloser.raw)
        (i := n.innerCloser.start) (j := n.innerCloser.stop) []
        (by omega) (Nat.le_trans (hmax ▸ hinner.start_le) m₁)
      have w₃ := w₂.deletion (i := n.innerOpener.start) (j := d.caret) (by omega)
      have m₃ := le_maxOffset_splice (n := n.outerOpener.start) (i := n.innerOpener.start)
        (j := d.caret) [] (by omega) (Nat.le_trans h₁ m₂)
      refine ⟨(w₃.insertion m₃ ?_).setCaret _, fits_setCaret _ _⟩
      refine returnsInBreaks_of_mem_text hr fun x hx => Or.inl ?_
      rcases List.mem_append.1 hx with hx | hx
      · exact hinner.mem_text (by rw [hopening]; simp) hx
      · exact Buffer.mem_text_of_mem_slice hx

end Document
end StructEdit
