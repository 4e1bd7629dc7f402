import StructEdit.Proofs.Balance.Convoluting
import StructEdit.Proofs.Balance.Slurping
import StructEdit.Proofs.Cursor.Lexemes
import StructEdit.Proofs.Cursor.Outward
import StructEdit.Proofs.Document.SingleStep

/-!
# Commands that only move text

A slurp or a barf takes one bracket of the text out and puts the same bracket in at another place.
Convoluting cuts the text at six places and puts the pieces together in another order. The offsets
are worked out before the first of the edits, so all this hangs on their order. It holds in every
document, whether its brackets match or not, because no motion comes back over the place that it
started from.
-/
namespace StructEdit

/-! ## Moving one token -/

/-- The text is that of the buffer with one of its brackets at another place. -/
def Buffer.Relocates (b : Buffer) (s : Text) : Prop :=
  ∃ q ∈ b.placed, (q.kind = .opening ∨ q.kind = .closing) ∧
    let rest := b.text.take q.start ++ b.text.drop q.stop
    ∃ t ≤ rest.length, t ≠ q.start ∧ s = rest.take t ++ q.token.raw ++ rest.drop t

namespace Text

variable {s : Text} {i j k : Nat}

/-- In a text without the characters between two offsets, an offset behind them. -/
theorem cut_behind (hij : i ≤ j) (hjk : j ≤ k) (hk : k ≤ s.length) :
    (s.take i ++ s.drop j).take (k - (j - i)) = s.take i ++ (s.take k).drop j ∧
      (s.take i ++ s.drop j).drop (k - (j - i)) = s.drop k := by
  have hlen : (s.take i).length = i := by rw [List.length_take]; omega
  have hsub : k - (j - i) - i = k - j := by omega
  constructor
  · rw [List.take_append, hlen, hsub, List.take_of_length_le (by omega), List.drop_take]
  · rw [List.drop_append, hlen, hsub, List.drop_of_length_le (by omega), List.drop_drop,
      List.nil_append]
    congr 1
    omega

end Text

namespace Document

variable {d : Document} {e : Cursor} {target : Nat}

theorem selection_perform (d : Document) (work : Document → Document) :
    (d.perform work).selection = (work d.begun).selection := by
  simp only [perform, transaction, grouped, begun]
  split <;> rfl

@[simp] theorem selection_begun (d : Document) : d.begun.selection = d.selection := rfl

@[simp] theorem selection_splice (d : Document) (i j : Nat) (s : Text) :
    (d.splice i j s).selection = d.selection := selection_change d i j s none none

theorem selection_setCaret {n : Nat} (h : n ≤ d.maxOffset) :
    (d.setCaret n).selection = .point n := by
  show (Selection.point n).clamp d.maxOffset = _
  exact Selection.Within.clamp_eq ⟨h, h⟩

theorem selection_carryForward (d : Document) (delimiter : Text) (source target : Nat) :
    (d.carryForward delimiter source target).selection = d.selection := by
  rw [carryForward, selection_perform, selection_splice, selection_splice, selection_begun]

theorem selection_carryBackward (d : Document) (delimiter : Text) (source target : Nat) :
    (d.carryBackward delimiter source target).selection = d.selection := by
  rw [carryBackward, selection_perform, selection_splice, selection_splice, selection_begun]

theorem raw_mem_delimiters (hp : Phase .code d.buffer.placed) (he : e.In d.buffer)
    (hk : e.kind = .opening ∨ e.kind = .closing) : e.raw ∈ Bracket.openers ++ Bracket.closers := by
  rcases hk with hk | hk
  · obtain ⟨-, -, hraw, -⟩ := he.opening hp hk
    exact List.mem_append_left _ hraw
  · obtain ⟨-, -, hraw, -⟩ := he.closing hp hk
    exact List.mem_append_right _ hraw

theorem stop_bracket (he : e.In d.buffer) (hk : e.kind = .opening ∨ e.kind = .closing) :
    e.stop = e.start + e.raw.length :=
  he.stop_eq (by rcases hk with hk | hk <;> simp [hk])

theorem carries_carryForward (hp : Phase .code d.buffer.placed) (he : e.In d.buffer)
    (hk : e.kind = .opening ∨ e.kind = .closing) (hlt : e.stop < target)
    (htarget : target ≤ d.buffer.maxOffset) :
    d.buffer.Relocates (d.carryForward e.raw e.start target).text := by
  have hstop := stop_bracket he hk
  have hlen : target ≤ d.buffer.text.length := by rwa [d.buffer.length_text]
  obtain ⟨htake, hdrop⟩ := Text.cut_behind (s := d.buffer.text) (i := e.start) (j := e.stop)
    (by omega) (Nat.le_of_lt hlt) hlen
  refine ⟨e.here, he.here_mem, hk, target - (e.stop - e.start), ?_, ?_, ?_⟩
  · show _ ≤ (d.buffer.text.take e.start ++ d.buffer.text.drop (e.start + e.raw.length)).length
    rw [← hstop, List.length_append, List.length_take, List.length_drop]
    omega
  · show target - (e.stop - e.start) ≠ e.start
    omega
  · show _ = (d.buffer.text.take e.start ++ d.buffer.text.drop (e.start + e.raw.length)).take _ ++
      e.raw ++ (d.buffer.text.take e.start ++ d.buffer.text.drop (e.start + e.raw.length)).drop _
    rw [← hstop, htake, hdrop, text, text_carryForward (raw_mem_delimiters hp he hk)
      (hstop ▸ Nat.le_of_lt hlt) htarget, ← hstop]
    simp only [List.append_assoc]

theorem carries_carryBackward (hp : Phase .code d.buffer.placed) (he : e.In d.buffer)
    (hk : e.kind = .opening ∨ e.kind = .closing) (hlt : target < e.start) :
    d.buffer.Relocates (d.carryBackward e.raw e.start target).text := by
  have hstart : e.start ≤ d.buffer.text.length := by
    rw [d.buffer.length_text]
    exact he.start_le
  refine ⟨e.here, he.here_mem, hk, target, ?_, Nat.ne_of_lt hlt, ?_⟩
  · rw [List.length_append, List.length_take]
    have hrow : e.here.start = e.start := rfl
    omega
  · show _ = (d.buffer.text.take e.start ++ d.buffer.text.drop (e.start + e.raw.length)).take _ ++
      e.raw ++ (d.buffer.text.take e.start ++ d.buffer.text.drop (e.start + e.raw.length)).drop _
    rw [Text.take_cut _ (Nat.le_of_lt hlt) hstart, Text.drop_cut _ (Nat.le_of_lt hlt) hstart, text,
      text_carryBackward (raw_mem_delimiters hp he hk) (Nat.le_of_lt hlt) he.start_le]
    simp only [List.append_assoc]

variable {f : Cursor} {ls ms rs : List Lexeme} {x : Lexeme}

theorem spell_carryForward (hp : Phase .code d.buffer.placed)
    (he : e.Parts d.buffer ls (x :: (ms ++ rs))) (hf : f.Parts d.buffer (ls ++ x :: ms) rs)
    (hk : e.kind = .opening ∨ e.kind = .closing) :
    (d.carryForward e.raw e.start f.start).text ++ ['\n'] = spell (ls ++ (ms ++ x :: rs)) := by
  have hraw := he.here.2
  have hwhole : spell (ls ++ x :: ms) = (spell ls ++ x.2) ++ spell ms := by simp
  have hend : e.start + e.raw.length = (spell ls ++ x.2).length := by
    rw [he.start, hraw, List.length_append]
  have hle : e.start + e.raw.length ≤ f.start := by
    rw [hend, hf.start, hwhole, @List.length_append _ (spell ls ++ x.2)]
    exact Nat.le_add_right _ _
  rw [text, text_carryForward (raw_mem_delimiters hp he.mem hk) hle hf.mem.start_le, he.take_text,
    hf.take_text, hend, hwhole, List.drop_left, hraw, List.append_assoc, hf.drop_text]
  simp

theorem spell_carryBackward (hp : Phase .code d.buffer.placed)
    (hf : f.Parts d.buffer ls (ms ++ x :: rs)) (he : e.Parts d.buffer (ls ++ ms) (x :: rs))
    (hk : e.kind = .opening ∨ e.kind = .closing) :
    (d.carryBackward e.raw e.start f.start).text ++ ['\n'] = spell (ls ++ x :: (ms ++ rs)) := by
  have hraw := he.here.2
  obtain ⟨hnext, hstop⟩ := he.next (by rcases hk with hk | hk <;> simp [hk])
  have hle : f.start ≤ e.start := by
    rw [hf.start, he.start, spell_append, List.length_append]
    exact Nat.le_add_right _ _
  rw [text, text_carryBackward (raw_mem_delimiters hp he.mem hk) hle he.mem.start_le, hf.take_text,
    he.take_text, hf.start, spell_append, List.drop_left, hraw, ← hraw, ← hstop, List.append_assoc,
    hnext.drop_text, hraw]
  simp

/-! ## Slurping and barfing -/

/-- The selection stays, and if the text changes one bracket has come to another place. -/
def MovesBracket (d e : Document) : Prop :=
  e.selection = d.selection ∧ (e.text = d.text ∨ d.buffer.Relocates e.text)

end Document

namespace Cursor

variable {b : Buffer} {c e : Cursor} {comments : Bool}

/-- Behind an expression, or a comment with its line end, no blank is skipped on the way back. -/
theorem In.backwardSpace_forwardSexp (hp : Phase .code b.placed) (h : c.In b)
    (hf : (c.forwardSexp false).found = true) :
    (c.forwardSexp false).cursor.backwardSpace false = (c.forwardSexp false).cursor := by
  have hmove := forwardSexp_of_found hf
  rw [hmove] at hf ⊢
  exact backwardSpace_sexpAhead ((h.forwardSpace false).phase hp).2.2 hf

end Cursor

namespace Document

variable {d : Document}

theorem movesBracket_slurpForward (hp : Phase .code d.buffer.placed) :
    d.MovesBracket d.slurpForward := by
  unfold slurpForward
  split
  · exact ⟨rfl, Or.inl rfl⟩
  · rename_i e he
    have hin := (d.buffer.in_cursorAt d.caret).forwardList? he
    have hk := (Cursor.forwardList?_eq_some he).2
    have hnext := (hin.next_of_kind (by simp [hk])).2
    dsimp only
    split
    · rename_i hf
      refine ⟨selection_carryForward _ _ _ _, Or.inr ?_⟩
      rw [hin.next.backwardSpace_forwardSexp hp hf]
      exact carries_carryForward hp hin (Or.inr hk) (hnext ▸ hin.next.lt_forwardSexp hf)
        (hin.next.forwardSexp false).start_le
    · exact ⟨rfl, Or.inl rfl⟩

theorem movesBracket_slurpBackward (hp : Phase .code d.buffer.placed) :
    d.MovesBracket d.slurpBackward := by
  unfold slurpBackward
  split
  · exact ⟨rfl, Or.inl rfl⟩
  · rename_i inside hi
    obtain ⟨hin, hk⟩ := prev_of_backwardList? (d.buffer.in_cursorAt d.caret) hi
    dsimp only
    split
    · rename_i hf
      refine ⟨selection_carryBackward _ _ _ _, Or.inr ?_⟩
      rw [Cursor.forwardSpace_of_not_skipped (Cursor.backwardSexp_found_not_skipped hf)]
      exact carries_carryBackward hp hin (Or.inl hk) (hin.backwardSexp_lt hf)
    · exact ⟨rfl, Or.inl rfl⟩

theorem movesBracket_barfForward (hp : Phase .code d.buffer.placed) :
    d.MovesBracket d.barfForward := by
  unfold barfForward
  split
  · exact ⟨rfl, Or.inl rfl⟩
  · rename_i e he
    have hin := (d.buffer.in_cursorAt d.caret).forwardList? he
    have hk := (Cursor.forwardList?_eq_some he).2
    dsimp only
    split
    · rename_i hf
      have hback := hin.backwardSexp false
      refine ⟨selection_carryBackward _ _ _ _, Or.inr ?_⟩
      refine carries_carryBackward hp hin (Or.inr hk) (Nat.lt_of_le_of_lt ?_ (hin.backwardSexp_lt hf))
      exact (hback.backwardSpace true).start_mono hback
        (Cursor.before_length_backwardSpace_le true _)
    · exact ⟨rfl, Or.inl rfl⟩

theorem movesBracket_barfBackward (hp : Phase .code d.buffer.placed) :
    d.MovesBracket d.barfBackward := by
  unfold barfBackward
  split
  · exact ⟨rfl, Or.inl rfl⟩
  · rename_i inside hi
    have hinside := (d.buffer.in_cursorAt d.caret).backwardList? hi
    have hprev := (Cursor.backwardList?_eq_some hi).2
    obtain ⟨hin, hkind, -, hstop, -⟩ := hinside.behind (by rw [hprev]; simp)
    dsimp only
    split
    · rename_i hf
      have hahead := hinside.forwardSexp false
      refine ⟨selection_carryForward _ _ _ _, Or.inr ?_⟩
      refine carries_carryForward hp hin (Or.inl (hkind.trans hprev)) ?_
        (hahead.forwardSpace false).start_le
      rw [hstop]
      exact Nat.lt_of_lt_of_le (hinside.lt_forwardSexp hf)
        (hahead.start_mono (hahead.forwardSpace false)
          (Cursor.before_length_le_forwardSpace false _))
    · exact ⟨rfl, Or.inl rfl⟩

/-! ## Convoluting -/

structure Nesting.InOrder (n : Nesting) (b : Buffer) (caret : Nat) : Prop where
  outerOpening : n.outerOpener.kind = .opening
  innerOpening : n.innerOpener.kind = .opening
  innerClosing : n.innerCloser.kind = .closing
  outerClosing : n.outerCloser.kind = .closing
  outer_le_inner : n.outerOpener.start ≤ n.innerOpener.start
  opened : n.innerOpener.stop ≤ caret
  le_closer : caret ≤ n.innerCloser.start
  inner_le_outer : n.innerCloser.stop ≤ n.outerCloser.stop

/-- The text in another order: what stands between the inner opening bracket and the caret comes in
front of the outer list, and the inner closing bracket comes behind it. -/
def Nesting.rotate (n : Nesting) (s : Text) (caret : Nat) : Text :=
  s.take n.outerOpener.start ++ s.slice n.innerOpener.start caret ++
    s.slice n.outerOpener.start n.innerOpener.start ++ s.slice caret n.innerCloser.start ++
    s.slice n.innerCloser.stop n.outerCloser.stop ++
    s.slice n.innerCloser.start n.innerCloser.stop ++ s.drop n.outerCloser.stop

variable {n : Nesting}

theorem inOrder_of_nesting? (hp : Phase .code d.buffer.placed) (hf : d.Fits)
    (hn : nesting? d.cursor = some n) : n.InOrder d.buffer d.caret := by
  obtain ⟨inside, outside, hinside, hclose, hopener, houtside, hup, hout⟩ := nesting?_eq_some hn
  have hin := d.buffer.in_cursorAt d.caret
  have hiin := hin.backwardList? hinside
  have hprev := (Cursor.backwardList?_eq_some hinside).2
  obtain ⟨hoin, hokind, -, hostop, -⟩ := hiin.behind (by rw [hprev]; simp)
  obtain ⟨hcin, hmin, hle⟩ := hin.closers_le hp hinside hclose (hopener ▸ hout)
  have hck := (Cursor.forwardList?_eq_some hclose).2
  have hmk := (Cursor.forwardList?_eq_some hout).2
  have hstart : d.cursor.start ≤ d.caret := d.buffer.start_cursorAt_le d.caret
  have houter := hoin.backwardList? (hopener ▸ houtside)
  obtain ⟨hupeq, hupkind⟩ := Cursor.backwardUpList?_eq_some hup
  rw [← hopener] at hoin hokind hostop
  refine ⟨?_, hokind.trans hprev, hck, hmk, ?_, ?_, ?_, ?_⟩
  · rw [hupeq, (Cursor.prev_of_prevKind (by rw [hupkind]; simp)).2, hupkind]
  · exact (houter.backwardUpList? hup).start_mono hoin
      (Nat.le_trans (Cursor.before_length_backwardUpList?_le hup)
        (Cursor.before_length_backwardList?_le houtside))
  · rw [hostop]
    exact Nat.le_trans
      (hiin.start_mono hin (Cursor.before_length_backwardList?_le hinside)) hstart
  · exact Buffer.le_forwardList? hf.2 hclose
  · rcases hle with heq | hlt
    · exact Nat.le_of_eq (congrArg Cursor.stop heq)
    · have hstop := hcin.stop_le_start hmin hlt
      have hend := hmin.stop_eq (by simp [hmk])
      rw [hcin.stop_eq (by simp [hck])]
      omega

theorem Nesting.InOrder.rotate_perm {caret : Nat} (h : n.InOrder d.buffer caret)
    (hopener : n.innerOpener.start ≤ n.innerOpener.stop)
    (hcloser : n.innerCloser.start ≤ n.innerCloser.stop) (s : Text) :
    (n.rotate s caret).Perm s := by
  have hopened := Nat.le_trans hopener h.opened
  have hwhole : s.take n.outerOpener.start ++ s.slice n.outerOpener.start n.innerOpener.start ++
      s.slice n.innerOpener.start caret ++ s.slice caret n.innerCloser.start ++
      s.slice n.innerCloser.start n.innerCloser.stop ++
      s.slice n.innerCloser.stop n.outerCloser.stop ++ s.drop n.outerCloser.stop = s := by
    rw [← Text.slice_zero s n.outerOpener.start,
      Text.slice_append_slice s (Nat.zero_le _) h.outer_le_inner,
      Text.slice_append_slice s (Nat.zero_le _) hopened,
      Text.slice_append_slice s (Nat.zero_le _) h.le_closer,
      Text.slice_append_slice s (Nat.zero_le _) hcloser,
      Text.slice_append_slice s (Nat.zero_le _) h.inner_le_outer, Text.slice_zero,
      List.take_append_drop]
  refine List.perm_iff_count.2 fun x => ?_
  have hcount := congrArg (List.count x) hwhole
  simp only [List.count_append] at hcount
  simp only [rotate, List.count_append]
  omega

/-- What the four edits of convoluting leave of the text. -/
theorem text_edits (hp : Phase .code d.buffer.placed) (hclean : '\r' ∉ d.text)
    (h : n.InOrder d.buffer d.caret) (hoin : n.innerOpener.In d.buffer)
    (hcin : n.innerCloser.In d.buffer) (hmax : n.outerCloser.stop ≤ d.buffer.maxOffset) :
    ((((d.buffer.replace n.outerCloser.stop n.outerCloser.stop n.innerCloser.raw).replace
      n.innerCloser.start n.innerCloser.stop []).replace n.innerOpener.start d.caret []).replace
      n.outerOpener.start n.outerOpener.start
        (n.innerOpener.raw ++ d.buffer.slice n.innerOpener.next.start d.caret)).text =
      n.rotate d.text d.caret := by
  have hopening : n.innerOpener.kind ≠ .lineEnd := by simp [h.innerOpening]
  have hclosing : n.innerCloser.kind ≠ .lineEnd := by simp [h.innerClosing]
  have hostop := hoin.stop_eq hopening
  have hcstop := hcin.stop_eq hclosing
  have hhead : n.innerOpener.raw ++ d.buffer.slice n.innerOpener.next.start d.caret =
      d.text.slice n.innerOpener.start d.caret := by
    rw [← hoin.slice_raw hopening, (hoin.next_of_kind hopening).2, d.buffer.slice_of_le h.opened]
    exact Text.slice_append_slice d.text (by omega) h.opened
  have hnot : '\r' ∉ d.text.slice n.innerOpener.start d.caret := fun hm =>
    hclean (List.mem_of_mem_take (List.mem_of_mem_drop hm))
  rw [hhead, Buffer.text_convolute
      (Text.newline_not_mem_delimiter (raw_mem_delimiters hp hcin (Or.inr h.innerClosing)))
      h.outer_le_inner (Nat.le_trans (by omega) h.opened) h.le_closer (by omega) h.inner_le_outer
      hmax,
    Text.normalizeBreaks_of_not_mem_return hnot, Text.normalizeBreaks_of_not_mem_return hnot,
    d.buffer.slice_of_le h.outer_le_inner, d.buffer.slice_of_le h.le_closer,
    d.buffer.slice_of_le h.inner_le_outer, ← hcin.slice_raw hclosing]
  simp only [Nesting.rotate, List.append_assoc]
  rfl

theorem convolute_eq_rotate (hd : d.Standing) (hclean : '\r' ∉ d.text)
    (hs : d.selection.isEmpty = true) (hn : nesting? d.cursor = some n) :
    n.InOrder d.buffer d.caret ∧ d.convolute.text = n.rotate d.text d.caret ∧
      d.convolute.text.Perm d.text ∧ d.convolute.selection = d.selection := by
  have hp : Phase .code d.buffer.placed := Buffer.phase_placed hd.settled hd.unbroken
  obtain ⟨inside, outside, hinside, hclose, hopener, -, -, hout⟩ := nesting?_eq_some hn
  have hin := d.buffer.in_cursorAt d.caret
  have horder := inOrder_of_nesting? hp hd.fits hn
  have hoin : n.innerOpener.In d.buffer := hopener ▸ (hin.backwardList? hinside).prev
  have hcin := hin.forwardList? hclose
  have hostop := stop_bracket hoin (Or.inl horder.innerOpening)
  have hcstop := stop_bracket hcin (Or.inr horder.innerClosing)
  have hedits := text_edits hp hclean horder hoin hcin (hoin.forwardList? hout).stop_le
  have hperm := horder.rotate_perm (by omega) (by omega) d.text
  have hconvolute : d.convolute.text = n.rotate d.text d.caret := by
    simp only [convolute, hs, Bool.true_eq_false, ↓reduceIte, hn]
    rw [text, buffer_perform, Buffer.text_flush, buffer_setCaret, buffer_splice, buffer_splice,
      buffer_splice, buffer_splice, buffer_begun]
    exact hedits
  refine ⟨horder, hconvolute, hconvolute ▸ hperm, ?_⟩
  have hlength := congrArg List.length hedits
  rw [Buffer.length_text, hperm.length_eq, text, Buffer.length_text] at hlength
  simp only [convolute, hs, Bool.true_eq_false, ↓reduceIte, hn]
  rw [selection_perform, selection_setCaret, Selection.eq_point_of_isEmpty hs]
  · rfl
  · simp only [maxOffset, buffer_splice, buffer_begun, hlength]
    exact hd.fits.2

/-! ## All five -/

/-- Slurping, barfing and convoluting only move text. In a document without carriage returns, its
brackets matched or not, a slurp or a barf leaves the selection alone, and if it changes the text
it takes one bracket out and puts it in at one other place. Convoluting leaves the selection alone
as well. Where the caret has two lists around it, the text comes apart at six places around it, and
its pieces come in another order; elsewhere nothing changes. -/
theorem text_moves {d : Document} (hd : d.Reached) (hclean : '\r' ∉ d.text) :
    (∀ e ∈ [d.slurpForward, d.slurpBackward, d.barfForward, d.barfBackward], d.MovesBracket e) ∧
    d.convolute.selection = d.selection ∧
    (d.convolute.text = d.text ∨ ∃ n, nesting? d.cursor = some n ∧ n.InOrder d.buffer d.caret ∧
      d.convolute.text = n.rotate d.text d.caret ∧ d.convolute.text.Perm d.text) := by
  have hp : Phase .code d.buffer.placed :=
    Buffer.phase_placed hd.standing.settled hd.standing.unbroken
  refine ⟨?_, ?_⟩
  · simp only [List.forall_mem_cons, List.not_mem_nil, false_implies, implies_true, and_true]
    exact ⟨movesBracket_slurpForward hp, movesBracket_slurpBackward hp,
      movesBracket_barfForward hp, movesBracket_barfBackward hp⟩
  · cases hs : d.selection.isEmpty with
    | false =>
      have hsame : d.convolute = d := by simp only [convolute, hs, ↓reduceIte]
      rw [hsame]
      exact ⟨rfl, Or.inl rfl⟩
    | true =>
      cases hn : nesting? d.cursor with
      | none =>
        have hsame : d.convolute = d := by
          simp only [convolute, hs, Bool.true_eq_false, ↓reduceIte, hn]
        rw [hsame]
        exact ⟨rfl, Or.inl rfl⟩
      | some n =>
        obtain ⟨horder, htext, hperm, hselection⟩ :=
          convolute_eq_rotate hd.standing hclean hs hn
        exact ⟨hselection, Or.inr ⟨n, rfl, horder, htext, hperm⟩⟩

/-- In `](x (a ') c] d` the brackets do not match, and behind the quote mark the motion from the caret
leaves the inner list, so that both lists end at the same bracket. -/
theorem text_moves_unmatched :
    let d := Command.setCaret 5 |>.apply (.ofText [']', '(', 'x', ' ', '(', 'a', ' ', '\'', ')',
      ' ', 'c', ']', ' ', 'd'])
    d.MovesBracket d.slurpForward ∧
      d.slurpForward.text =
        [']', '(', 'x', ' ', '(', 'a', ' ', '\'', ')', ' ', 'c', ' ', 'd', ']'] ∧
      d.convolute.selection = ⟨5, 5⟩ ∧ ∃ n, nesting? d.cursor = some n ∧
        n.InOrder d.buffer d.caret ∧ d.convolute.text = n.rotate d.text d.caret := by
  intro d
  have hd : d.Reached := .apply _ (.fresh (.ofText trivial))
  have hchanged : d.convolute.text ≠ d.text := by decide +kernel
  obtain ⟨hmoves, hselection, hconvolute⟩ := text_moves hd (by decide +kernel)
  obtain ⟨n, hn, horder, htext, -⟩ := hconvolute.resolve_left hchanged
  exact ⟨hmoves _ List.mem_cons_self, by decide +kernel,
    hselection.trans (by decide +kernel), n, hn, horder, htext⟩

end Document
end StructEdit
