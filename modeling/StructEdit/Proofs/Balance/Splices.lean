import StructEdit.Proofs.Balance.Lists
import StructEdit.Proofs.Cursor.Lexemes
import StructEdit.Proofs.Scan.Seams

/-!
# Splicing and the text around a list

Splicing removes the two delimiters of a list, and so leaves the surplus of opening over closing
brackets as it is. It keeps balanced text balanced when only lists of the family of the
delimiters are left in between. Where the text in front of a caret has been cut back to an opening
bracket, what follows the caret is read as it is by itself, whatever it was read as before, and
the end of the list is looked for there.
-/
namespace StructEdit

/-! ## The balance of fences -/

/-- How many more lists are opened than closed. -/
def surplus : List Fence → Int
  | [] => 0
  | .opens _ :: fs => 1 + surplus fs
  | .closes _ :: fs => -1 + surplus fs

@[simp] theorem surplus_append (fs gs : List Fence) :
    surplus (fs ++ gs) = surplus fs + surplus gs := by
  induction fs with
  | nil => simp [surplus]
  | cons f fs ih => cases f <;> simp only [List.cons_append, surplus, ih, Int.add_assoc]

theorem surplus_of_nest {l m : List Bracket} {fs : List Fence} (h : nest l fs = some m) :
    (m.length : Int) = l.length + surplus fs := by
  induction fs generalizing l with
  | nil =>
    obtain rfl := Option.some.inj h
    simp [surplus]
  | cons f fs ih =>
    cases f with
    | opens b =>
      have := ih (l := b :: l) h
      rw [this, surplus, List.length_cons]
      omega
    | closes b =>
      obtain ⟨rest, rfl, hrest⟩ := nest_closes_eq_some.1 h
      rw [ih hrest, surplus, List.length_cons]
      omega

theorem Text.Balanced.surplus_eq {s : Text} (h : s.Balanced) :
    surplus (Place.code.fences s) = 0 := by
  have := surplus_of_nest h.1
  simp only [List.length_nil] at this
  omega

/-! ## Splicing -/

namespace Buffer

/-- The two ends of the list around an offset whose delimiters splicing removes: the place behind
the opening one and the closing one. -/
def enclosing? (b : Buffer) (i : Nat) : Option (Cursor × Cursor) :=
  if (b.cursorAt i).withinString then none
  else
    (b.cursorAt i).backwardList?.bind fun o =>
      o.forwardList?.bind fun e =>
        if Bracket.paired o.prevToken.raw e.raw then some (o, e) else none

/-- The text without the delimiters of the list around an offset. -/
def spliced (b : Buffer) (i : Nat) : Text :=
  match b.enclosing? i with
  | none => b.text
  | some (o, e) =>
    b.text.take (o.start - o.prevToken.length) ++ (b.text.take e.start).drop o.start ++
      b.text.drop (e.start + e.here.token.length)

/-- From behind the opening delimiter to the closing one, only lists of their family are left. -/
def KeepsSplice (b : Buffer) (i : Nat) : Prop :=
  match b.enclosing? i with
  | none => True
  | some (o, e) => ∀ y ∈ b.text.closed o.start e.start, some y = Bracket.ofText? e.raw

variable {b : Buffer} {i : Nat} {o e : Cursor}

theorem enclosing?_eq_some (h : b.enclosing? i = some (o, e)) :
    (b.cursorAt i).withinString = false ∧ (b.cursorAt i).backwardList? = some o ∧
      o.forwardList? = some e ∧ Bracket.paired o.prevToken.raw e.raw = true := by
  unfold enclosing? at h
  split at h
  · simp at h
  · rename_i hw
    obtain ⟨o', ho, h⟩ := Option.bind_eq_some_iff.1 h
    obtain ⟨e', he, h⟩ := Option.bind_eq_some_iff.1 h
    split at h
    · rename_i hp
      obtain ⟨rfl, rfl⟩ := Prod.mk.inj (Option.some.inj h)
      exact ⟨Bool.eq_false_iff.2 hw, ho, he, hp⟩
    · simp at h

/-- The delimiters are fences of one family, in whatever buffer. -/
theorem fences_enclosing (hp : Phase .code b.placed) (h : b.enclosing? i = some (o, e)) :
    ∃ x, Bracket.ofText? e.raw = some x ∧ o.start ≤ e.start ∧
      b.text.FenceAt (o.start - o.prevToken.length) o.start (.opens x) ∧
      b.text.FenceAt e.start (e.start + e.here.token.length) (.closes x) := by
  obtain ⟨-, ho, he, hpaired⟩ := enclosing?_eq_some h
  have hoin := (b.in_cursorAt i).backwardList? ho
  have hein := hoin.forwardList? he
  have hk := (Cursor.forwardList?_eq_some he).2
  obtain ⟨x, hx, -, hfence⟩ := hoin.opener hp (Cursor.backwardList?_eq_some ho).2
  obtain ⟨y, hy, -, hfence'⟩ := hein.closing hp hk
  obtain rfl : x = y := by simpa [Bracket.paired, hx, hy] using hpaired
  rw [hein.stop_eq (by simp [hk])] at hfence'
  exact ⟨x, hy, hoin.start_mono hein (Cursor.before_length_le_forwardList? he), hfence, hfence'⟩

theorem Nested.spliced_iff (hb : b.Nested) (i : Nat) :
    (b.spliced i).Balanced ↔ b.KeepsSplice i := by
  have hbal := hb.balanced
  unfold spliced KeepsSplice
  cases h : b.enclosing? i with
  | none => exact iff_true_intro hbal
  | some oe =>
    obtain ⟨o, e⟩ := oe
    obtain ⟨x, hx, hle, hopen, hclose⟩ := fences_enclosing hb.phase h
    obtain ⟨-, ho, he, -⟩ := enclosing?_eq_some h
    obtain ⟨-, l, hl⟩ := ((b.in_cursorAt i).backwardList? ho).walk_forwardList? hb he
    obtain ⟨hclosed, hlists⟩ := hbal.lists_closed hle hl
    have hbetween := Text.piece_between b.text hle
    rw [hopen.stop, hclose.start] at hbetween
    have hmid : Piece (b.text.placeAt (o.start - o.prevToken.length))
        ((b.text.take e.start).drop o.start) (b.text.fencesBetween o.start e.start) .code := by
      rw [hopen.start]
      exact hbetween
    simp only [hclosed, hx, Option.some.injEq]
    rw [hbal.splice_iff hmid (Or.inl hclose.stop.symm), nest_of_closes hl,
      ← cons_append_comm_iff (m := b.text.listsAt (e.start + e.here.token.length))]
    rw [hbal.lists_opening hopen, hbal.lists_closing hclose] at hlists
    constructor
    · intro heq
      rw [← heq, hlists]
    · intro heq
      rw [← hlists] at heq
      exact (List.cons.inj heq).2.symm

/-- Taking out a pair of delimiters leaves the surplus as it is. -/
theorem surplus_spliced (hp : Phase .code b.placed) (i : Nat) :
    surplus (Place.code.fences (b.spliced i)) = surplus (Place.code.fences b.text) := by
  unfold spliced
  cases h : b.enclosing? i with
  | none => rfl
  | some oe =>
    obtain ⟨o, e⟩ := oe
    obtain ⟨x, -, hle, hopen, hclose⟩ := fences_enclosing hp h
    have hbetween := Text.piece_between b.text hle
    rw [hopen.stop, hclose.start] at hbetween
    have hfirst := Text.piece_take b.text (o.start - o.prevToken.length)
    rw [hopen.start] at hfirst
    have hpiece := hfirst.append hbetween
    have hwhole : Place.code.fences b.text = Place.code.fences (b.text.take e.start) ++
        (.closes x :: Place.code.fences (b.text.drop (e.start + e.here.token.length))) := by
      conv => lhs; rw [← List.take_append_drop (e.start + e.here.token.length) b.text]
      rw [Place.fences_append, Text.fences_take b.text hclose.le, hclose.between,
        (Text.piece_take _ _).after, hclose.stop, List.append_assoc]
      rfl
    rw [Place.fences_append, hpiece.fences, hpiece.after, hwhole, Text.fences_take b.text hle,
      Text.fences_take b.text hopen.le, hopen.between]
    simp only [surplus_append, surplus]
    omega

/-! ## Behind an opening bracket -/

/-- The text behind an offset, read by itself. -/
def behind (b : Buffer) (i : Nat) : Buffer := (b.replace 0 i []).flush

theorem text_behind (b : Buffer) (i : Nat) : (b.behind i).text = b.text.drop i := by
  rw [behind, text_flush, text_replace_of_le (Nat.zero_le i) (by simp)]
  simp

theorem Settled.behind (h : b.Settled) (i : Nat) : (b.behind i).Settled :=
  (h.covered.replace 0 i []).flush

theorem Unbroken.behind (h : b.Unbroken) (i : Nat) : (b.behind i).Unbroken :=
  (h.replace 0 i []).flush

structure Cut (b : Buffer) (o : Cursor) (i : Nat) (k : Buffer) : Prop where
  nested : b.Nested
  settled : k.Settled
  unbroken : k.Unbroken
  mem : o.In b
  opening : o.prevKind = .opening
  text : k.text = b.text.take o.start ++ b.text.drop i

namespace Cut

variable {k : Buffer} (h : Cut b o i k)
include h

/-- Behind the bracket stand the tokens of the rest, read by itself. -/
theorem placed : k.placed.map Placed.lexeme =
    o.before.reverse.map Placed.lexeme ++ (b.behind i).placed.map Placed.lexeme := by
  obtain ⟨x, -, -, hfence⟩ := h.mem.opener h.nested.phase h.opening
  obtain ⟨ts, y, hlast, hy⟩ := h.mem.parts.exists_last (by simp [h.opening])
  have hplace : Place.code.after (spell (o.before.reverse.map Placed.lexeme)) = .code := by
    rw [← h.mem.parts.take_text]
    exact hfence.stop
  have hreads := reads_placed h.nested.settled h.nested.unbroken
  rw [h.mem.parts.placed] at hreads
  have hrest := reads_placed (h.nested.settled.behind i) (h.nested.unbroken.behind i)
  refine lexeme_placed h.settled h.unbroken ((hreads.stretch hplace).1.append hrest
    fun hseam => hseam.false_of_last hlast (Or.inl (hy.trans h.opening))) ?_
  rw [h.text, spell_append, ← h.mem.parts.take_text, spell_map_lexeme, rawText_placed,
    text_behind, List.append_assoc]

/-- At the cut the cursor stands behind the same bracket, with the tokens of the rest ahead. -/
theorem cursorAt : (k.cursorAt o.start).In k ∧ (k.cursorAt o.start).start = o.start ∧
    (k.cursorAt o.start).prevKind = .opening ∧
    (k.cursorAt o.start).prevToken.raw = o.prevToken.raw ∧
    (k.cursorAt o.start).Alike (b.behind i).firstCursor := by
  have hrest := (b.behind i).cons_firstCursor
  have hplaced := h.placed
  rw [← hrest, List.map_cons] at hplaced
  obtain ⟨c, hc⟩ := Cursor.exists_parts k _ _ hplaced (by simp)
  have hstart : c.start = o.start := hc.start.trans h.mem.parts.start.symm
  have hat : k.cursorAt o.start = c := by
    refine hc.mem.cursorAt_eq_of_lt (Nat.le_of_eq hstart) ?_
    have := hc.mem.raw_length_pos
    omega
  have hbefore : c.before.map Placed.lexeme = o.before.map Placed.lexeme := by
    have := congrArg List.reverse hc.behind
    simpa using this
  obtain ⟨hkind, hraw⟩ := Cursor.prevToken_of_lexeme hbefore
  rw [hat]
  exact ⟨hc.mem, hstart, hkind.trans h.opening, hraw, hc.ahead⟩

/-- Where the rest comes to the end of a list, the list around the cut ends. -/
theorem enclosing?_of_forwardList? {e : Cursor}
    (hw : (b.behind i).firstCursor.withinString = false)
    (he : (b.behind i).firstCursor.forwardList? = some e)
    (hp : Bracket.paired o.prevToken.raw e.raw = true) :
    ∃ e', k.enclosing? o.start = some (k.cursorAt o.start, e') ∧ e'.Alike e := by
  obtain ⟨-, -, hk, hraw, hahead⟩ := h.cursorAt
  obtain ⟨e', he', hlike⟩ := hahead.symm.forwardList? he
  refine ⟨e', ?_, hlike.symm⟩
  have hout : (k.cursorAt o.start).withinString = false :=
    (hahead.withinString_firstCursor hk).trans hw
  have hpaired : Bracket.paired (k.cursorAt o.start).prevToken.raw e'.raw = true := by
    rw [hraw, ← hlike.here.2]
    exact hp
  simp only [Buffer.enclosing?, hout, Cursor.backwardList?_of_opening hk, he', hpaired,
    Bool.false_eq_true, ↓reduceIte, Option.bind_some]

theorem forwardList?_of_enclosing? {c e' : Cursor} (he : k.enclosing? o.start = some (c, e')) :
    c = k.cursorAt o.start ∧ (b.behind i).firstCursor.withinString = false ∧
      ∃ e, (b.behind i).firstCursor.forwardList? = some e ∧
        Bracket.paired o.prevToken.raw e.raw = true ∧ e'.Alike e := by
  obtain ⟨-, -, hk, hraw, hahead⟩ := h.cursorAt
  obtain ⟨hw, hc, he', hpaired⟩ := enclosing?_eq_some he
  rw [Cursor.backwardList?_of_opening hk] at hc
  obtain rfl := Option.some.inj hc
  obtain ⟨e, hfirst, hlike⟩ := hahead.forwardList? he'
  rw [hraw, hlike.here.2] at hpaired
  exact ⟨rfl, (hahead.withinString_firstCursor hk).symm.trans hw, e, hfirst, hpaired, hlike⟩

/-- The splice takes out the bracket and its partner in the rest. -/
theorem text_spliced {e e' : Cursor} (he : k.enclosing? o.start = some (k.cursorAt o.start, e'))
    (hlike : e'.Alike e) (hin : e.In (b.behind i)) :
    k.spliced o.start = b.text.take (o.start - o.prevToken.length) ++
      ((b.text.drop i).take e.start ++ (b.text.drop i).drop (e.start + e.here.token.length)) := by
  obtain ⟨hc, hstart, -, hraw, -⟩ := h.cursorAt
  have hin' := hc.forwardList? (enclosing?_eq_some he).2.2.1
  have hlen : (k.cursorAt o.start).prevToken.length = o.prevToken.length :=
    congrArg List.length hraw
  have hlen' : e'.here.token.length = e.here.token.length := congrArg List.length hlike.here.2
  have htake : (b.text.take o.start).length = o.start :=
    List.length_take_of_le (by rw [b.length_text]; exact h.mem.start_le)
  have hat : e'.start = o.start + e.start := by
    have hdrop := congrArg List.length (hlike.drop_text hin' hin)
    have hle := hin'.start_le
    have hle' := hin.start_le
    have hwhole := congrArg List.length h.text
    rw [← length_text] at hle hle'
    rw [text_behind] at hdrop hle'
    rw [List.length_append, htake] at hwhole
    simp only [List.length_drop] at hdrop hle' hwhole
    omega
  have hdrop : ∀ n, k.text.drop (o.start + n) = (b.text.drop i).drop n := by
    intro n
    rw [h.text, List.drop_append, htake, Nat.add_sub_cancel_left,
      List.drop_eq_nil_of_le (by omega), List.nil_append]
  rw [spliced, he]
  simp only [hstart, hlen, hlen', hat]
  rw [h.text, Text.take_cut _ (Nat.sub_le _ _) (by rw [b.length_text]; exact h.mem.start_le),
    ← h.text, Nat.add_assoc, hdrop, List.drop_take, ← Nat.add_zero o.start, hdrop]
  simp [List.append_assoc]

end Cut

/-! ## Mending -/

/-- The rest behind an offset comes to the end of the list that a bracket opens, and closes the
lists around it without its two delimiters. -/
def Mends (b : Buffer) (o : Cursor) (i : Nat) : Prop :=
  (b.behind i).firstCursor.withinString = false ∧
    ∃ e ∈ (b.behind i).firstCursor.forwardList?,
      Bracket.paired o.prevToken.raw e.raw = true ∧
      Text.Closes .code (b.text.listsAt (o.start - o.prevToken.length))
        ((b.text.drop i).take e.start ++ (b.text.drop i).drop (e.start + e.here.token.length))

instance (b : Buffer) (o : Cursor) (i : Nat) : Decidable (b.Mends o i) :=
  inferInstanceAs (Decidable (_ ∧ _))

namespace Cut

variable {k : Buffer} (h : Cut b o i k)
include h

theorem closes_iff (t : Text) :
    Text.Balanced (b.text.take (o.start - o.prevToken.length) ++ t) ↔
      Text.Closes .code (b.text.listsAt (o.start - o.prevToken.length)) t := by
  obtain ⟨x, -, -, hfence⟩ := h.mem.opener h.nested.phase h.opening
  rw [h.nested.balanced.take_append_iff, hfence.start]

theorem balanced_spliced (hm : b.Mends o i) : (k.spliced o.start).Balanced := by
  obtain ⟨hw, e, he, hp, hcloses⟩ := hm
  obtain ⟨e', henclosing, hlike⟩ := h.enclosing?_of_forwardList? hw he hp
  rw [h.text_spliced henclosing hlike ((b.behind i).in_firstCursor.forwardList? he), h.closes_iff]
  exact hcloses

/-- A splice that leaves balanced text has found it so, or has mended it. -/
theorem mends_of_balanced (hbal : (k.spliced o.start).Balanced) :
    k.text.Balanced ∨ b.Mends o i := by
  cases henclosing : k.enclosing? o.start with
  | none =>
    rw [spliced, henclosing] at hbal
    exact Or.inl hbal
  | some ce =>
    obtain ⟨c, e'⟩ := ce
    obtain ⟨rfl, hw, e, he, hp, hlike⟩ := h.forwardList?_of_enclosing? henclosing
    rw [h.text_spliced henclosing hlike ((b.behind i).in_firstCursor.forwardList? he),
      h.closes_iff] at hbal
    exact Or.inr ⟨hw, e, he, hp, hbal⟩

end Cut
end Buffer

namespace Document

theorem text_spliceAt (d : Document) (i : Nat) :
    (d.spliceAt i).1.buffer.text = d.buffer.spliced i := by
  unfold Buffer.spliced Buffer.enclosing?
  simp only [spliceAt]
  split
  · rfl
  · cases ho : (d.buffer.cursorAt i).backwardList? with
    | none => rfl
    | some o =>
      cases he : o.forwardList? with
      | none => simp [he, Outcome.done]
      | some e =>
        have hoin := (d.buffer.in_cursorAt i).backwardList? ho
        have hein := hoin.forwardList? he
        have hle := hoin.start_mono hein (Cursor.before_length_le_forwardList? he)
        simp only [Option.bind_some, he]
        split
        · simp only [Outcome.done]
          rw [buffer_perform, Buffer.text_flush, buffer_setCaret, buffer_splice, buffer_splice,
            buffer_begun, Buffer.text_replace_replace (Nat.sub_le _ _) hle (Nat.le_add_right _ _)
              hein.start_le (by simp) (by simp), List.append_nil, List.nil_append]
        · rfl

theorem balanced_splice_iff {d : Document} (hb : d.buffer.Nested) (i : Nat) :
    (d.spliceAt i).1.buffer.text.Balanced ↔ d.buffer.KeepsSplice i := by
  rw [text_spliceAt, hb.spliced_iff]

end Document
end StructEdit
