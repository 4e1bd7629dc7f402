import StructEdit.Proofs.Balance.Carets
import StructEdit.Proofs.Document.Standing

/-!
# Texts after edits

What a transaction leaves of the text. Where a command edits in two places, from the back to the
front, the text between the places stays, and all of it is one text in the place of
another. Delimiters that come to stand around fences leave the open lists as they should be
when all lists that the fences close are of their family.
-/
namespace StructEdit

namespace Text

variable {s : Text} {i j k : Nat}

theorem take_cut (rest : Text) (hik : i ≤ k) (hk : k ≤ s.length) :
    (s.take k ++ rest).take i = s.take i := by
  rw [List.take_append_of_le_length (by rw [List.length_take]; omega), List.take_take,
    Nat.min_eq_left hik]

theorem drop_cut (rest : Text) (hjk : j ≤ k) (hk : k ≤ s.length) :
    (s.take k ++ rest).drop j = (s.take k).drop j ++ rest :=
  List.drop_append_of_le_length (by rw [List.length_take]; omega)

theorem newline_not_mem_delimiter {o : Text} (ho : o ∈ Bracket.openers ++ Bracket.closers) :
    '\n' ∉ o := fun hm => ((quiet_of_delimiter ho).2 _ hm).2.2 rfl

end Text

namespace Buffer

variable {b : Buffer} {i j k l : Nat} {s t : Text}

theorem text_replace_of_le (hij : i ≤ j) (hs : '\n' ∉ s) :
    (b.replace i j s).text = b.text.take i ++ s ++ b.text.drop j := by
  rw [text_replace_of_clean _ _ _ (Text.normalizeBreaks_of_not_mem_newline hs),
    Nat.min_eq_left hij, Nat.max_eq_right hij]

/-- A change in front of an offset up to which the text is another text. -/
theorem text_replace_of_take {u rest : Text} (hb : b.text = u.take k ++ rest) (hij : i ≤ j)
    (hjk : j ≤ k) (hk : k ≤ u.length) (s : Text) :
    (b.replace i j s).text = u.take i ++ (Text.normalizeBreaks (Text.normalizeBreaks s) ++
      ((u.take k).drop j ++ rest)) := by
  rw [text_replace, Nat.min_eq_left hij, Nat.max_eq_right hij, hb,
    Text.take_cut _ (Nat.le_trans hij hjk) hk, Text.drop_cut _ hjk hk, List.append_assoc]

theorem text_replace_replace (hij : i ≤ j) (hjk : j ≤ k) (hkl : k ≤ l) (hk : k ≤ b.maxOffset)
    (hs : '\n' ∉ s) (ht : '\n' ∉ t) :
    ((b.replace k l t).replace i j s).text =
      b.text.take i ++ (s ++ (b.text.take k).drop j ++ t) ++ b.text.drop l := by
  have hfirst := text_replace_of_le (b := b) hkl ht
  rw [List.append_assoc] at hfirst
  rw [text_replace_of_take hfirst hij hjk (by rw [length_text]; exact hk),
    Text.normalizeBreaks_of_not_mem_newline hs, Text.normalizeBreaks_of_not_mem_newline hs]
  simp only [List.append_assoc]

end Buffer

namespace Document

theorem buffer_perform (d : Document) (work : Document → Document) :
    (d.perform work).buffer = (work d.begun).buffer.flush := by
  simp only [perform, transaction, grouped, begun]
  split <;> rfl

@[simp] theorem buffer_splice (d : Document) (i j : Nat) (s : Text) :
    (d.splice i j s).buffer = d.buffer.replace i j s := buffer_change d i j s none none

@[simp] theorem buffer_setCaret (d : Document) (offset : Nat) :
    (d.setCaret offset).buffer = d.buffer := rfl

@[simp] theorem buffer_begun (d : Document) : d.begun.buffer = d.buffer := rfl

end Document

/-! ## Delimiters around fences -/

theorem cons_append_comm_iff {b : Bracket} {l m : List Bracket} :
    b :: (l ++ m) = l ++ b :: m ↔ ∀ y ∈ l, y = b := by
  induction l with
  | nil => simp
  | cons x l ih =>
    constructor
    · intro h
      obtain ⟨rfl, hrest⟩ := List.cons.inj h
      have := ih.1 hrest
      simpa using this
    · intro h
      obtain rfl := h x List.mem_cons_self
      rw [List.cons_append, List.cons_append,
        ih.2 fun y hy => h y (List.mem_cons_of_mem _ hy)]

/-- A list opened before fences can be closed behind them when it is of the family of all lists
that they close. -/
theorem nest_around {b : Bracket} {l m : List Bracket} {fs : List Fence} (h : nest l fs = some []) :
    nest (b :: (l ++ m)) (fs ++ [.closes b]) = some m ↔ ∀ y ∈ l, y = b := by
  rw [nest_append_eq_some, ← cons_append_comm_iff]
  constructor
  · rintro ⟨n, hn, hclose⟩
    obtain ⟨rest, rfl, hrest⟩ := nest_closes_eq_some.1 hclose
    obtain rfl := Option.some.inj hrest
    exact (nest_of_closes h).1 hn
  · intro heq
    exact ⟨b :: m, (nest_of_closes h).2 heq, by simp⟩

/-- In a comment or a string delimiters are only characters. -/
theorem Piece.quiet {p q : Place} {o mid : Text} {fs : List Fence} (h : Piece p mid fs q)
    (hp : p ≠ .code) (ho : o ∈ Bracket.openers ++ Bracket.closers)
    (he : p = .escape → ∃ rest, mid = '\n' :: rest) : Piece p (o ++ mid) fs q := by
  obtain ⟨hne, hquiet⟩ := quiet_of_delimiter ho
  have hpiece := Place.piece_quiet hp hne hquiet
  by_cases hescape : p = .escape
  · subst hescape
    obtain ⟨rest, rfl⟩ := he rfl
    have hmid : Piece .string ('\n' :: rest) fs q := ⟨h.fences, h.after⟩
    exact hpiece.append hmid
  · rw [if_neg hescape] at hpiece
    exact hpiece.append h

end StructEdit
