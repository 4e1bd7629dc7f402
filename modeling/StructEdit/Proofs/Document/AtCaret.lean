import StructEdit.Proofs.Balance.Edits
import StructEdit.Proofs.Balance.Slips
import StructEdit.Proofs.History.Replay

/-!
# The text after a command at the caret

The commands that type or delete at the caret read the two or three characters around it by their
offsets. With the text cut at the caret, what they do is a function of the two parts. The part in
front is taken in reverse where a command looks at its last characters.
-/
namespace StructEdit

/-! ## The characters around the caret -/

namespace Buffer

variable {b : Buffer} {u v : Text}

/-- Around the end of a first part of the text there are its last characters and the first ones of
the rest, or too few of them. -/
theorem around_cases (h : b.text = u.reverse ++ v) (m n : Nat) :
    b.around u.length m n = (u.take m).reverse ++ v.take n ∨
      b.around u.length m n = [] ∧ ((u.take m).reverse ++ v.take n).length < m + n := by
  have hmax : b.maxOffset = u.length + v.length := by
    rw [← b.length_text, h, List.length_append, List.length_reverse]
  unfold around sliceWithin
  rw [Nat.max_eq_right (show u.length - m ≤ u.length + n by omega), hmax]
  by_cases hm : m ≤ u.length
  · rw [if_pos hm]
    split
    · refine Or.inr ⟨rfl, ?_⟩
      simp only [List.length_append, List.length_reverse, List.length_take]
      omega
    · refine Or.inl ?_
      have hlen : u.reverse.length = u.length := List.length_reverse
      rw [b.slice_of_le (by omega), h, List.take_append, List.drop_append_of_le_length (by simp),
        List.take_of_length_le (by omega), hlen, Nat.add_sub_cancel_left, List.drop_reverse,
        Nat.sub_sub_self hm]
  · rw [if_neg hm]
    refine Or.inr ⟨rfl, ?_⟩
    simp only [List.length_append, List.length_reverse, List.length_take]
    omega

/-- What is asked of as many characters can be asked of the two parts. -/
theorem test_around (test : Text → Bool) (h : b.text = u.reverse ++ v) {m n : Nat}
    (ht : ∀ w : Text, w.length < m + n → test w = false) :
    test (b.around u.length m n) = test ((u.take m).reverse ++ v.take n) := by
  rcases around_cases h m n with heq | ⟨hnil, hlt⟩
  · rw [heq]
  · rw [hnil, ht _ hlt, ht [] (by rw [List.length_nil]; omega)]

theorem around_eq_iff (h : b.text = u.reverse ++ v) {m n : Nat} {w : Text} (hw : w ≠ [])
    (hlen : w.length = m + n) :
    b.around u.length m n = w ↔ (u.take m).reverse ++ v.take n = w := by
  rcases around_cases h m n with heq | ⟨hnil, hlt⟩
  · rw [heq]
  · rw [hnil]
    refine ⟨fun he => absurd he.symm hw, fun he => ?_⟩
    rw [he] at hlt
    omega

end Buffer

theorem isDelimiter_of_length {s : Text} (h : s.length < 1) : isDelimiter s = false := by
  cases s with
  | nil => rfl
  | cons c s => simp at h

namespace Document

variable {d : Document} {u v : Text}

theorem buffer_deleteAt (d : Document) (start count : Nat) (before after : Option Selection) :
    (d.deleteAt start count before after).buffer = d.buffer.replace start (start + count) [] :=
  buffer_change d start (start + count) [] before after

@[simp] theorem buffer_keepColumn (d : Document) : d.keepColumn.buffer = d.buffer := rfl

theorem text_deletePair {front mid back : Text} {start count : Nat}
    (h : d.buffer.text = front ++ mid ++ back) (hstart : start = front.length)
    (hcount : count = mid.length) : (d.deletePair start count).buffer.text = front ++ back := by
  subst hstart hcount
  rw [deletePair, buffer_perform, Buffer.text_flush, buffer_setCaret, buffer_deleteAt, buffer_begun,
    Buffer.text_replace_cut h (by simp), List.append_nil]

section Deleting

variable (hempty : d.selection.isEmpty = true) (h : d.buffer.text = u.reverse ++ v)
  (hu : u.length = d.caret)
include hempty h hu

theorem text_backspace : d.backspace.buffer.text = (u.drop 1).reverse ++ v := by
  have hcaret : d.begun.caret = u.length := hu.symm
  have hsel : d.begun.selection.isEmpty = true := hempty
  rw [backspace, buffer_perform, Buffer.text_flush, buffer_keepColumn, if_neg (by simp [hsel]),
    hcaret]
  cases u with
  | nil => simpa using h
  | cons c w =>
    have hcut : d.buffer.text = w.reverse ++ [c] ++ v := by rw [h, List.reverse_cons]
    have htext := Buffer.text_replace_cut hcut (s := []) (by simp)
    rw [List.length_reverse, List.length_singleton] at htext
    rw [if_pos (by simp), buffer_setCaret, buffer_deleteAt, buffer_begun, List.length_cons,
      Nat.add_sub_cancel, htext, List.append_nil]
    rfl

theorem text_delete : d.delete.buffer.text = u.reverse ++ v.drop 1 := by
  have hcaret : d.begun.caret = u.length := hu.symm
  have hsel : d.begun.selection.isEmpty = true := hempty
  have hmax : d.begun.maxOffset = u.length + v.length := by
    rw [maxOffset, buffer_begun, ← Buffer.length_text, h, List.length_append, List.length_reverse]
  rw [delete, buffer_perform, Buffer.text_flush, buffer_keepColumn, if_neg (by simp [hsel]), hcaret,
    hmax]
  cases v with
  | nil => simpa using h
  | cons c t =>
    have hcut : d.buffer.text = u.reverse ++ [c] ++ t := by rw [h]; simp
    have htext := Buffer.text_replace_cut hcut (s := []) (by simp)
    rw [List.length_reverse, List.length_singleton] at htext
    rw [if_pos (by simp), buffer_setCaret, buffer_deleteAt, buffer_begun, htext, List.append_nil]
    rfl

omit hempty in
theorem escape_behind_iff :
    2 ≤ d.caret ∧ d.buffer.sliceWithin (d.caret - 2) (d.caret - 1) = ['\\'] ↔
      (u.drop 1).take 1 = ['\\'] := by
  match u with
  | [] => simp [← hu]
  | [c] => simp [← hu]
  | c :: a :: w =>
    have hcut : d.buffer.text = (a :: w).reverse ++ c :: v := by rw [h]; simp
    have haround := Buffer.around_eq_iff hcut (m := 1) (n := 0) (w := ['\\']) (by simp) rfl
    have hcaret : d.caret = w.length + 2 := hu.symm
    simpa [Buffer.around, hcaret] using haround

omit hempty in
theorem test_around_caret (test : Text → Bool) {m n : Nat}
    (ht : ∀ w : Text, w.length < m + n → test w = false) :
    test (d.buffer.around d.caret m n) = test ((u.take m).reverse ++ v.take n) := by
  rw [← hu]
  exact Buffer.test_around test h ht

omit hempty in
theorem isEmptyPair_around :
    isEmptyPair (d.buffer.around d.caret 1 1) = isEmptyPair (u.take 1 ++ v.take 1) := by
  have hreverse : (u.take 1).reverse = u.take 1 := by cases u <;> simp
  rw [test_around_caret h hu isEmptyPair fun _ hw => Text.isEmptyPair_of_length (Nat.ne_of_lt hw),
    hreverse]

/-- Deleting backwards on the text around the caret. -/
theorem text_backspacePair : d.backspacePair.buffer.text = Text.backspaced u v := by
  have hthree : d.buffer.around d.caret 3 0 = ['\\', '"', '"'] ↔ u.take 3 = ['"', '"', '\\'] := by
    rw [← hu, Buffer.around_eq_iff h (by simp) rfl, List.take_zero, List.append_nil,
      List.reverse_eq_iff]
    rfl
  have hreverse : (u.take 1).reverse = u.take 1 := by cases u <;> simp
  have hone : isDelimiter (d.buffer.around d.caret 1 0) = isDelimiter (u.take 1) := by
    rw [test_around_caret h hu isDelimiter fun _ => isDelimiter_of_length, hreverse,
      List.take_zero, List.append_nil]
  unfold backspacePair Text.backspaced
  simp only [hempty, hthree, escape_behind_iff h hu, isEmptyPair_around h hu, hone]
  rw [if_neg (by simp)]
  split
  · exact h
  split
  · rename_i hslash
    obtain ⟨c, w, rfl⟩ := Text.exists_of_slash hslash
    have hcut : d.buffer.text = w.reverse ++ ['\\', c] ++ v := by rw [h]; simp
    exact text_deletePair hcut (by simp [← hu]) rfl
  split
  · rename_i hpair'
    obtain ⟨c, w, x, t, rfl, rfl, -⟩ := Text.exists_of_isEmptyPair hpair'
    have hcut : d.buffer.text = w.reverse ++ [c, x] ++ t := by rw [h]; simp
    exact text_deletePair hcut (by simp [← hu]) rfl
  split
  · exact h
  · exact text_backspace hempty h hu

/-- Deleting forwards on the text around the caret. -/
theorem text_deletePairForward : d.deletePairForward.buffer.text = Text.deletedAhead u v := by
  have htwo : isEmptyPair (d.buffer.sliceWithin d.caret (d.caret + 2)) = isEmptyPair (v.take 2) :=
    test_around_caret h hu isEmptyPair (m := 0) (n := 2) fun _ hw =>
      Text.isEmptyPair_of_length (Nat.ne_of_lt hw)
  have hone : isDelimiter (d.buffer.sliceWithin d.caret (d.caret + 1)) = isDelimiter (v.take 1) :=
    test_around_caret h hu isDelimiter (m := 0) (n := 1) fun _ => isDelimiter_of_length
  unfold deletePairForward Text.deletedAhead
  simp only [hempty, htwo, isEmptyPair_around h hu, hone]
  rw [if_neg (by simp)]
  split
  · rename_i hpair'
    obtain ⟨c, x, t, rfl⟩ := Text.exists_of_take_two hpair'
    have hcut : d.buffer.text = u.reverse ++ [c, x] ++ t := by rw [h]; simp
    have htext := Buffer.text_replace_cut hcut (s := []) (by simp)
    rw [List.length_reverse, hu] at htext
    rw [buffer_perform, Buffer.text_flush, buffer_deleteAt, buffer_begun]
    exact htext.trans (by simp)
  split
  · rename_i hpair'
    obtain ⟨c, w, x, t, rfl, rfl, -⟩ := Text.exists_of_isEmptyPair hpair'
    have hcut : d.buffer.text = w.reverse ++ [c, x] ++ t := by rw [h]; simp
    exact text_deletePair hcut (by simp [← hu]) rfl
  split
  · exact h
  · exact text_delete hempty h hu

end Deleting

theorem text_typed {s : Text} (h : d.buffer.text = u ++ v) (hs : '\r' ∉ s) (n : Nat) :
    (d.perform fun d => (d.splice u.length u.length s).setCaret n).buffer.text = u ++ s ++ v := by
  have hcut : d.buffer.text = u ++ [] ++ v := by rw [h, List.append_nil]
  have htext := Buffer.text_replace_cut hcut hs
  rw [List.length_nil, Nat.add_zero] at htext
  rw [buffer_perform, Buffer.text_flush, buffer_setCaret, buffer_splice, buffer_begun, htext]

/-- What a split puts into a string. Between a backslash and a quote it goes behind the quote. -/
theorem text_splitString (h : d.buffer.text = u ++ v) (hu : u.length = d.caret) :
    (d.splitString d.caret).buffer.text = u ++ ['"', ' ', '"'] ++ v ∧
      ¬(u.getLast? = some '\\' ∧ v.head? = some '"') ∨
    ∃ t, v = '"' :: t ∧
      (d.splitString d.caret).buffer.text = u ++ ['"'] ++ ['"', ' ', '"'] ++ t := by
  have haround : d.buffer.around d.caret 1 1 = ['\\', '"'] ↔
      u.getLast? = some '\\' ∧ v.head? = some '"' := by
    have hreverse : d.buffer.text = u.reverse.reverse ++ v := by rw [h, List.reverse_reverse]
    rw [← hu, ← List.length_reverse, Buffer.around_eq_iff hreverse (by simp) rfl]
    rw [← List.head?_reverse]
    cases u.reverse <;> cases v <;> simp
  unfold splitString
  split
  · rename_i hmark
    obtain ⟨t, rfl⟩ : ∃ t, v = '"' :: t := by
      have hhead := (haround.1 hmark).2
      cases v with
      | nil => cases hhead
      | cons c t => exact ⟨t, by rw [Option.some.inj hhead]⟩
    refine Or.inr ⟨t, rfl, ?_⟩
    have hcut : d.buffer.text = u ++ ['"'] ++ t := by rw [h]; simp
    have htext := text_typed hcut (s := ['"', ' ', '"']) (by simp) (d.caret + 1 + 1)
    rwa [List.length_append, List.length_singleton, hu] at htext
  · rename_i hmark
    refine Or.inl ⟨?_, fun hboth => hmark (haround.2 hboth)⟩
    have htext := text_typed h (s := ['"', ' ', '"']) (by simp) (d.caret + 1)
    rwa [hu] at htext

end Document
end StructEdit
