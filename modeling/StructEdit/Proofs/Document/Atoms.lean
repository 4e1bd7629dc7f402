import StructEdit.Proofs.Document.Carrying
import StructEdit.Proofs.Scan.Joining

/-!
# Atoms under slurping and barfing

A slurp or a barf moves a bracket without a look at what it stood between. Where it was taken out, two
tokens can run into one, and where it is put in, the bracket can be drawn into the token in front of
it. So the atoms of a balanced document stay as they are exactly when, in the new text, no token but
blanks lies across one of the three places where pieces of the old text meet.
-/
namespace StructEdit

namespace Buffer

/-- The kinds and characters of the tokens that are neither brackets nor spaces. -/
def atoms (b : Buffer) : List Lexeme := StructEdit.atoms (b.placed.map Placed.lexeme)

/-- A token that is no blank starts before the offset and ends behind it. -/
def Bridged (b : Buffer) (n : Nat) : Prop :=
  ∃ q ∈ b.placed, q.kind ≠ .blank ∧ q.start < n ∧ n < q.stop

instance (b : Buffer) (n : Nat) : Decidable (b.Bridged n) :=
  inferInstanceAs (Decidable (∃ q ∈ b.placed, _))

theorem start_of_placed {b : Buffer} {ps qs : List Placed} {q : Placed}
    (h : b.placed = ps ++ q :: qs) : q.start = (spell (ps.map Placed.lexeme)).length := by
  have hin : Cursor.In ⟨ps.reverse, q, qs⟩ b := by simp [Cursor.In, Cursor.toList, h]
  have hparts := hin.parts
  simpa [Cursor.start] using hparts.start

theorem bridged_iff {b : Buffer} {n : Nat} : b.Bridged n ↔ Crosses n (b.placed.map Placed.lexeme) := by
  rw [crosses_iff]
  constructor
  · rintro ⟨q, hq, hk, hlow, hhigh⟩
    obtain ⟨ps, qs, hplaced⟩ := List.append_of_mem hq
    rw [Placed.stop, start_of_placed hplaced] at hhigh
    rw [start_of_placed hplaced] at hlow
    exact ⟨ps.map Placed.lexeme, q.lexeme, qs.map Placed.lexeme, by simp [hplaced], hk, hlow, hhigh⟩
  · rintro ⟨us, x, vs, hsplit, hk, hlow, hhigh⟩
    obtain ⟨ps, qs, hplaced, rfl, hqs⟩ := List.map_eq_append_iff.1 hsplit
    obtain ⟨q, qs, rfl, rfl, rfl⟩ := List.map_eq_cons_iff.1 hqs
    have hstart := start_of_placed hplaced
    refine ⟨q, by simp [hplaced], hk, hstart ▸ hlow, ?_⟩
    rw [Placed.stop, hstart]
    exact hhigh

end Buffer

/-! ## The pieces of the text -/

namespace Mode

variable {A B C : List Lexeme} {x : Lexeme}

theorem Agrees.code_of_isFinal {m : Mode} {p : Place} {s : Text} (h : m.Agrees p s)
    (hp : p.isFinal = true) : m = .code := by
  rcases h with rfl | ⟨-, hpass⟩
  · cases m
    · rfl
    · cases hp
  · cases p <;> cases m <;> simp_all [Place.isFinal, Place.pass, Mode.place]

/-- A bracket is put in further on, in code or behind the comment at the end. -/
theorem Reads.row_forward (h : Mode.code.Reads [] (A ++ x :: (B ++ C)))
    (hx : x.1 = .opening ∨ x.1 = .closing)
    (hplace : Place.code.after (spell (A ++ x :: B)) = .code ∨
      Place.code.after (spell (A ++ x :: B)) = .comment ∧ '#' ∉ x.2 ++ spell C) :
    Row [A, B, [x], C] := by
  obtain ⟨hA, hbracket, hrest⟩ := h.bracket hx
  rw [spell_append, Place.after_append, hA.place, ← List.singleton_append, spell_append,
    Place.after_append, hbracket.place] at hplace
  obtain ⟨hB, hC⟩ := reads_append.1 hrest
  have halong : Mode.code.along B = .code := by
    refine (hB.agrees (agrees_place .code _)).code_of_isFinal ?_
    show (Place.code.after (spell B)).isFinal = true
    rcases hplace with hcode | ⟨hcomment, -⟩
    · rw [hcode]; rfl
    · rw [hcomment]; rfl
  refine .cons hA.reads hA.along (Or.inl hA.place) (.cons ⟨_, hB⟩ halong ?_
    (.cons hbracket.reads hbracket.along (Or.inl hbracket.place) (.last (halong ▸ hC))))
  refine hplace.imp id fun hcomment => ?_
  simpa using hcomment.2

/-- A bracket is put in further back, in code. -/
theorem Reads.row_backward (h : Mode.code.Reads [] (A ++ (B ++ x :: C)))
    (hx : x.1 = .opening ∨ x.1 = .closing) (hplace : Place.code.after (spell A) = .code) :
    Row [A, [x], B, C] := by
  obtain ⟨hA, hrest⟩ := h.stretch hplace
  obtain ⟨hB, hbracket, hC⟩ := hrest.bracket hx
  exact .cons hA.reads hA.along (Or.inl hA.place) (.cons hbracket.reads hbracket.along
    (Or.inl hbracket.place) (.cons hB.reads hB.along (Or.inl hB.place) (.last hC)))

end Mode

namespace Cursor

/-- Where the pieces of the text meet when the token has gone to an offset further on. -/
def seamsForward (c : Cursor) (target : Nat) : List Nat :=
  [c.start, target - c.raw.length, target]

/-- Where the pieces of the text meet when the token has gone to an offset further back. -/
def seamsBackward (c : Cursor) (target : Nat) : List Nat :=
  [target, target + c.raw.length, c.start + c.raw.length]

variable {b : Buffer} {e f : Cursor} {A B C : List Lexeme}

theorem seams_forward (he : e.Parts b A (e.here.lexeme :: (B ++ C)))
    (hf : f.Parts b (A ++ e.here.lexeme :: B) C) :
    Mode.seams [A, B, [e.here.lexeme], C] = e.seamsForward f.start := by
  have h₁ := he.start
  have h₂ := hf.start
  have h₃ : e.here.lexeme.2 = e.raw := rfl
  simp only [Mode.seams, seamsForward, List.map_cons, List.map_nil, spell_cons, spell_nil,
    spell_append, List.append_nil, List.length_append, h₃] at h₂ ⊢
  rw [h₁]
  simp only [List.cons.injEq, and_true, true_and]
  omega

theorem seams_backward (hf : f.Parts b A (B ++ e.here.lexeme :: C))
    (he : e.Parts b (A ++ B) (e.here.lexeme :: C)) :
    Mode.seams [A, [e.here.lexeme], B, C] = e.seamsBackward f.start := by
  have h₁ := hf.start
  have h₂ := he.start
  have h₃ : e.here.lexeme.2 = e.raw := rfl
  simp only [Mode.seams, seamsBackward, List.map_cons, List.map_nil, spell_cons, spell_nil,
    spell_append, List.append_nil, List.length_append, h₃] at h₂ ⊢
  rw [h₁]
  simp only [List.cons.injEq, and_true, true_and]
  omega

end Cursor

namespace Document

open Cursor

variable {d : Document} {e f : Cursor}

theorem not_content_of_bracket {k : Kind} (hk : k = .opening ∨ k = .closing) :
    k.isContent = false := by
  rcases hk with rfl | rfl <;> rfl

theorem atoms_of_row {d' : Document} {segments : List (List Lexeme)} (hs : d'.Standing)
    (hrow : Mode.Row segments) (htext : d'.text ++ ['\n'] = spell segments.flatten)
    (hatoms : d.buffer.atoms = atoms segments.flatten) :
    d'.buffer.atoms = d.buffer.atoms ↔ ∀ n ∈ Mode.seams segments, ¬d'.buffer.Bridged n := by
  have hlex := Buffer.lex_text hs.settled hs.unbroken
  rw [show d'.buffer.text ++ ['\n'] = _ from htext] at hlex
  simp only [Buffer.bridged_iff]
  rw [Buffer.atoms, hatoms, ← hlex]
  exact hrow.atoms_iff.2

theorem atoms_carryForward_iff (hs : d.Standing)
    (hs' : (d.carryForward e.raw e.start f.start).Standing) (he : e.In d.buffer)
    (hf : f.In d.buffer) (hk : e.kind = .opening ∨ e.kind = .closing) (hle : e.stop ≤ f.start)
    (hplace : d.text.placeAt f.start = .code ∨
      e.kind = .closing ∧ Ends (d.text.placeAt f.start) f) :
    (d.carryForward e.raw e.start f.start).buffer.atoms = d.buffer.atoms ↔
      ∀ n ∈ e.seamsForward f.start,
        ¬(d.carryForward e.raw e.start f.start).buffer.Bridged n := by
  have hp : Phase .code d.buffer.placed := Buffer.phase_placed hs.settled hs.unbroken
  have hline : e.kind ≠ .lineEnd := by rcases hk with hk | hk <;> simp [hk]
  have hparts := he.parts
  rw [List.map_cons] at hparts
  obtain ⟨hnext, hstart⟩ := hparts.next hline
  obtain ⟨us, hspan⟩ := hnext.mem.exists_span hf (by
    rw [(he.next_of_kind hline).2]
    exact hle)
  obtain ⟨hfparts, hrest⟩ := hnext.of_span hspan hf
  generalize e.before.reverse.map Placed.lexeme = A at *
  generalize us.map Placed.lexeme = B at *
  generalize hC : (f.here :: f.after).map Placed.lexeme = C at *
  rw [hrest] at hparts
  rw [List.append_assoc, List.singleton_append] at hfparts
  have hreads := Buffer.reads_placed hs.settled hs.unbroken
  rw [hparts.placed] at hreads
  have hx : e.here.lexeme.1 = .opening ∨ e.here.lexeme.1 = .closing := hk
  have hrow : Mode.Row [A, B, [e.here.lexeme], C] := by
    refine hreads.row_forward hx ?_
    rw [← hfparts.take_text]
    rcases hplace with hcode | ⟨hclosing, hcode | ⟨hcomment, hnil⟩⟩
    · exact Or.inl hcode
    · exact Or.inl hcode
    · have hlast : f.here.lexeme.2 = ['\n'] :=
        hf.raw_of_lineEnd hp (hf.kind_last f.here (by rw [hnil]; rfl))
      have hclosers : ∀ o ∈ Bracket.closers, '#' ∉ o := by decide
      obtain ⟨_, -, hraw, -⟩ := he.closing hp hclosing
      have hhash : '#' ∉ e.here.lexeme.2 := hclosers _ hraw
      refine Or.inr ⟨hcomment, ?_⟩
      rw [← hC, hnil]
      simpa [hlast] using hhash
  rw [← seams_forward hparts hfparts]
  refine atoms_of_row hs' hrow ?_ ?_
  · have := spell_carryForward hp hparts hfparts hk
    simpa using this
  · rw [Buffer.atoms, hparts.placed]
    simp [atoms_cons_of_not_content (not_content_of_bracket hx)]

theorem atoms_carryBackward_iff (hs : d.Standing)
    (hs' : (d.carryBackward e.raw e.start f.start).Standing) (he : e.In d.buffer)
    (hf : f.In d.buffer) (hk : e.kind = .opening ∨ e.kind = .closing) (hle : f.start ≤ e.start)
    (hplace : d.text.placeAt f.start = .code) :
    (d.carryBackward e.raw e.start f.start).buffer.atoms = d.buffer.atoms ↔
      ∀ n ∈ e.seamsBackward f.start,
        ¬(d.carryBackward e.raw e.start f.start).buffer.Bridged n := by
  have hp : Phase .code d.buffer.placed := Buffer.phase_placed hs.settled hs.unbroken
  have hparts := hf.parts
  obtain ⟨us, hspan⟩ := hf.exists_span he hle
  obtain ⟨heparts, hrest⟩ := hparts.of_span hspan he
  rw [hrest, List.map_cons] at hparts
  rw [List.map_cons] at heparts
  generalize f.before.reverse.map Placed.lexeme = A at *
  generalize us.map Placed.lexeme = B at *
  generalize e.after.map Placed.lexeme = C at *
  have hreads := Buffer.reads_placed hs.settled hs.unbroken
  rw [hparts.placed] at hreads
  have hx : e.here.lexeme.1 = .opening ∨ e.here.lexeme.1 = .closing := hk
  have hrow : Mode.Row [A, [e.here.lexeme], B, C] :=
    hreads.row_backward hx (by rw [← hparts.take_text]; exact hplace)
  rw [← seams_backward hparts heparts]
  refine atoms_of_row hs' hrow ?_ ?_
  · have := spell_carryBackward hp hparts heparts hk
    simpa using this
  · rw [Buffer.atoms, hparts.placed]
    simp [atoms_cons_of_not_content (not_content_of_bracket hx)]

/-! ## Slurping and barfing -/

/-- The seams of the text that a forward slurp leaves. -/
def slurpForwardSeams (d : Document) : List Nat :=
  match d.cursor.forwardList? with
  | none => []
  | some e =>
    let r := e.next.forwardSexp false
    if r.found then e.seamsForward (r.cursor.backwardSpace false).start else []

/-- The seams of the text that a backward slurp leaves. -/
def slurpBackwardSeams (d : Document) : List Nat :=
  match d.cursor.backwardList? with
  | none => []
  | some inside =>
    let o := inside.prev
    let r := o.backwardSexp false
    if r.found then o.seamsBackward (r.cursor.forwardSpace false).start else []

/-- The seams of the text that a forward barf leaves. -/
def barfForwardSeams (d : Document) : List Nat :=
  match d.cursor.forwardList? with
  | none => []
  | some e =>
    let r := e.backwardSexp false
    if r.found then e.seamsBackward (r.cursor.backwardSpace true).start else []

/-- The seams of the text that a backward barf leaves. -/
def barfBackwardSeams (d : Document) : List Nat :=
  match d.cursor.backwardList? with
  | none => []
  | some inside =>
    let o := inside.prev
    let r := inside.forwardSexp false
    if r.found then o.seamsForward (r.cursor.forwardSpace false).start else []

theorem atoms_slurpForward_iff (hd : d.Reached) (hb : d.buffer.Nested) :
    d.slurpForward.buffer.atoms = d.buffer.atoms ↔
      ∀ n ∈ d.slurpForwardSeams, ¬d.slurpForward.buffer.Bridged n := by
  have hs' : d.slurpForward.Standing := (Reached.apply .slurpForward hd).standing
  revert hs'
  simp only [slurpForward, slurpForwardSeams]
  cases he : d.cursor.forwardList? with
  | none => simp
  | some e =>
    have hein := (d.buffer.in_cursorAt d.caret).forwardList? he
    have hk := (Cursor.forwardList?_eq_some he).2
    have hnext := (hein.next_of_kind (by simp [hk])).2
    obtain ⟨hle, hends, -⟩ := hein.next.walk_forwardSexp hb false
    simp only
    by_cases hf : (e.next.forwardSexp false).found = true
    · rw [if_pos hf, if_pos hf, hein.next.backwardSpace_forwardSexp hb.phase hf]
      exact fun hs' => atoms_carryForward_iff hd.standing hs' hein (hein.next.forwardSexp false)
        (Or.inr hk) (hnext ▸ hle) (Or.inr ⟨hk, hends⟩)
    · simp [if_neg hf]

theorem atoms_slurpBackward_iff (hd : d.Reached) (hb : d.buffer.Nested) :
    d.slurpBackward.buffer.atoms = d.buffer.atoms ↔
      ∀ n ∈ d.slurpBackwardSeams, ¬d.slurpBackward.buffer.Bridged n := by
  have hs' : d.slurpBackward.Standing := (Reached.apply .slurpBackward hd).standing
  revert hs'
  simp only [slurpBackward, slurpBackwardSeams]
  cases hi : d.cursor.backwardList? with
  | none => simp
  | some inside =>
    obtain ⟨hoin, hk⟩ := prev_of_backwardList? (d.buffer.in_cursorAt d.caret) hi
    have hle := (hoin.walk_backwardSexp hb false).1
    simp only
    by_cases hf : (inside.prev.backwardSexp false).found = true
    · rw [if_pos hf, if_pos hf,
        Cursor.forwardSpace_of_not_skipped (Cursor.backwardSexp_found_not_skipped hf)]
      exact fun hs' => atoms_carryBackward_iff hd.standing hs' hoin (hoin.backwardSexp false)
        (Or.inl hk) hle (hoin.code_of_backwardSexp hb hf)
    · simp [if_neg hf]

theorem atoms_barfForward_iff (hd : d.Reached) (hb : d.buffer.Nested) :
    d.barfForward.buffer.atoms = d.buffer.atoms ↔
      ∀ n ∈ d.barfForwardSeams, ¬d.barfForward.buffer.Bridged n := by
  have hs' : d.barfForward.Standing := (Reached.apply .barfForward hd).standing
  revert hs'
  simp only [barfForward, barfForwardSeams]
  cases he : d.cursor.forwardList? with
  | none => simp
  | some e =>
    have hein := (d.buffer.in_cursorAt d.caret).forwardList? he
    have hk := (Cursor.forwardList?_eq_some he).2
    have hrin := hein.backwardSexp false
    have hle := (hein.walk_backwardSexp hb false).1
    have hle' := (hrin.walk_backwardSpace hb true).1
    simp only
    by_cases hf : (e.backwardSexp false).found = true
    · rw [if_pos hf, if_pos hf]
      exact fun hs' => atoms_carryBackward_iff hd.standing hs' hein (hrin.backwardSpace true)
        (Or.inr hk) (Nat.le_trans hle' hle)
        ((hrin.place_backwardSpace hb true).1 (hein.code_of_backwardSexp hb hf))
    · simp [if_neg hf]

theorem atoms_barfBackward_iff (hd : d.Reached) (hb : d.buffer.Nested) :
    d.barfBackward.buffer.atoms = d.buffer.atoms ↔
      ∀ n ∈ d.barfBackwardSeams, ¬d.barfBackward.buffer.Bridged n := by
  have hs' : d.barfBackward.Standing := (Reached.apply .barfBackward hd).standing
  revert hs'
  simp only [barfBackward, barfBackwardSeams]
  cases hi : d.cursor.backwardList? with
  | none => simp
  | some inside =>
    have hinside := (d.buffer.in_cursorAt d.caret).backwardList? hi
    have hprev := (Cursor.backwardList?_eq_some hi).2
    obtain ⟨hoin, hkind, -, hstop, -⟩ := hinside.behind (by rw [hprev]; simp)
    have hrin := hinside.forwardSexp false
    have hle := (hinside.walk_forwardSexp hb false).1
    have hle' := (hrin.walk_forwardSpace hb false).1
    simp only
    by_cases hf : (inside.forwardSexp false).found = true
    · rw [if_pos hf, if_pos hf]
      exact fun hs' => atoms_carryForward_iff hd.standing hs' hoin (hrin.forwardSpace false)
        (Or.inl (hkind.trans hprev)) (hstop ▸ Nat.le_trans hle hle')
        (Or.inl (hrin.code_of_forwardSpace hb (hinside.code_of_forwardSexp hb hprev)))
    · simp [if_neg hf]

/-- In a balanced document, a slurp or a barf keeps all atoms, in their order, if and only if in the
new text no token but blanks lies across one of the places where the pieces of the old text meet. -/
theorem keeps_atoms_iff {d : Document} (hd : d.Reached) (hb : d.buffer.Balanced) :
    ∀ move ∈ [(d.slurpForward, d.slurpForwardSeams), (d.slurpBackward, d.slurpBackwardSeams),
        (d.barfForward, d.barfForwardSeams), (d.barfBackward, d.barfBackwardSeams)],
      move.1.buffer.atoms = d.buffer.atoms ↔ ∀ n ∈ move.2, ¬move.1.buffer.Bridged n := by
  have hs := hd.standing
  have hnested : d.buffer.Nested :=
    ⟨hs.settled, hs.unbroken, (Buffer.balanced_iff hs.settled hs.unbroken).1 hb⟩
  simp only [List.forall_mem_cons, List.not_mem_nil, false_implies, implies_true, and_true]
  exact ⟨atoms_slurpForward_iff hd hnested, atoms_slurpBackward_iff hd hnested,
    atoms_barfForward_iff hd hnested, atoms_barfBackward_iff hd hnested⟩

/-- Two blanks that come to stand side by side become one, and a mark in front of the list stays
apart from its bracket. -/
theorem keeps_atoms_iff_blanks :
    let d := (Command.setCaret 2).apply (.ofText ['\'', '(', 'a', ' ', ')', ' ', 'b'])
    d.slurpForward.text = ['\'', '(', 'a', ' ', ' ', 'b', ')'] ∧
      d.slurpForward.buffer.atoms = d.buffer.atoms := by
  intro d
  have hd : d.Reached := .apply _ (.fresh (.ofText trivial))
  exact ⟨by decide +kernel,
    (keeps_atoms_iff hd (by decide +kernel) _ List.mem_cons_self).2 (by decide +kernel)⟩

/-- Where no blank stands behind the list, the symbol that it takes in runs into the one before it. A
hash in front of the symbol that is taken in becomes part of the bracket. -/
theorem not_keeps_atoms :
    let d := (Command.setCaret 1).apply (.ofText ['(', 'a', ')', 'b'])
    let e := (Command.setCaret 4).apply (.ofText ['#', 'a', ' ', '(', 'b', ')'])
    d.buffer.Balanced ∧ d.buffer.atoms = [(.symbol, ['a']), (.symbol, ['b'])] ∧
      d.slurpForward.text = ['(', 'a', 'b', ')'] ∧
      d.slurpForward.buffer.atoms = [(.symbol, ['a', 'b'])] ∧
      d.slurpForward.buffer.atoms ≠ d.buffer.atoms ∧
      e.buffer.Balanced ∧ e.buffer.atoms = [(.mark, ['#']), (.symbol, ['a']), (.symbol, ['b'])] ∧
      e.slurpBackward.text = ['#', '(', 'a', ' ', 'b', ')'] ∧
      e.slurpBackward.buffer.atoms = [(.symbol, ['a']), (.symbol, ['b'])] := by
  decide +kernel

end Document
end StructEdit
