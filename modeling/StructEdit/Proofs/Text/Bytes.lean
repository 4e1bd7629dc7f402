import StructEdit.Text.Basic

/-!
# Positions in the UTF-8 form

Positions count characters, and the UTF-8 form of a text has one to four bytes for each of them.
`byteIndex` takes a position to its place among the bytes. The places it gives are the boundaries:
the ends of the text and the places in front of a byte that begins a character. The bytes between
two boundaries are the UTF-8 form of a piece of the text, and the bytes between any other two
places need not be the form of a text at all.

A slice can therefore be taken by its characters or by its bytes. `byteSlice?` takes it by its
bytes and has no value where a place is no boundary; `slices_agree` says that this never happens
and that both ways give the same text.
-/
namespace StructEdit.Text

def utf8 (s : Text) : List UInt8 := s.flatMap String.utf8EncodeChar

@[simp] theorem utf8_nil : utf8 [] = [] := rfl

@[simp] theorem utf8_cons (c : Char) (s : Text) :
    utf8 (c :: s) = String.utf8EncodeChar c ++ utf8 s := List.flatMap_cons

@[simp] theorem utf8_append (s t : Text) : utf8 (s ++ t) = utf8 s ++ utf8 t := List.flatMap_append

theorem utf8Decode?_utf8 (s : Text) : (utf8 s).toByteArray.utf8Decode? = some s.toArray :=
  List.utf8Decode?_utf8Encode

/-! ## Boundaries -/

/-- A place where the bytes can be cut: an end of them, or in front of a byte that begins a
character. -/
def Boundary (s : Text) (i : Nat) : Prop :=
  i = 0 ∨ i = (utf8 s).length ∨ ∃ b ∈ (utf8 s)[i]?, b.IsUTF8FirstByte

instance (s : Text) (i : Nat) : Decidable (Boundary s i) :=
  inferInstanceAs (Decidable (_ ∨ _ ∨ _))

/-- The bytes that begin a character are the first ones of the characters. -/
theorem exists_firstByte_iff {c : Char} {i : Nat} :
    (∃ b ∈ (String.utf8EncodeChar c)[i]?, b.IsUTF8FirstByte) ↔ i = 0 := by
  constructor
  · rintro ⟨b, hb, hfirst⟩
    obtain ⟨hi, rfl⟩ := List.getElem?_eq_some_iff.1 hb
    exact UInt8.isUTF8FirstByte_getElem_utf8EncodeChar.1 hfirst
  · rintro rfl
    have hpos : 0 < (String.utf8EncodeChar c).length := by
      rw [String.length_utf8EncodeChar]
      exact c.utf8Size_pos
    exact ⟨_, List.getElem?_eq_getElem hpos, UInt8.isUTF8FirstByte_getElem_utf8EncodeChar.2 rfl⟩

/-- Inside its first character a text has no boundary. -/
theorem not_boundary_of_lt {c : Char} {s : Text} {i : Nat} (hpos : 0 < i) (hlt : i < c.utf8Size) :
    ¬Boundary (c :: s) i := by
  rintro (h | h | h)
  · omega
  · simp only [utf8_cons, List.length_append, String.length_utf8EncodeChar] at h
    omega
  · rw [utf8_cons, List.getElem?_append_left (by simpa using hlt), exists_firstByte_iff] at h
    omega

/-- Behind its first character the boundaries of a text are those of the rest. -/
theorem boundary_cons {c : Char} {s : Text} {i : Nat} :
    Boundary (c :: s) (c.utf8Size + i) ↔ Boundary s i := by
  have hpos := c.utf8Size_pos
  have hget : (String.utf8EncodeChar c ++ utf8 s)[c.utf8Size + i]? = (utf8 s)[i]? := by
    rw [List.getElem?_append_right (by simp), String.length_utf8EncodeChar,
      Nat.add_sub_cancel_left]
  simp only [Boundary, utf8_cons, hget, List.length_append, String.length_utf8EncodeChar,
    Nat.add_left_cancel_iff]
  constructor
  · exact fun h => h.elim (fun h => by omega) Or.inr
  · rintro (rfl | h)
    · cases s with
      | nil => exact Or.inr (Or.inl rfl)
      | cons d s =>
        refine Or.inr (Or.inr ?_)
        have hd := d.utf8Size_pos
        rw [utf8_cons, List.getElem?_append_left (by simpa using hd), exists_firstByte_iff]
    · exact Or.inr h

/-- The boundaries of a text are the places that its positions have among the bytes. -/
theorem boundary_iff {s : Text} {i : Nat} : Boundary s i ↔ ∃ k, byteIndex s k = i := by
  induction s generalizing i with
  | nil => simp [Boundary, byteIndex, eq_comm]
  | cons c s ih =>
    have hpos := c.utf8Size_pos
    by_cases hzero : i = 0
    · exact iff_of_true (Or.inl hzero) ⟨0, hzero.symm⟩
    by_cases hlt : i < c.utf8Size
    · refine iff_of_false (not_boundary_of_lt (by omega) hlt) ?_
      rintro ⟨_ | k, hk⟩ <;> simp only [byteIndex] at hk <;> omega
    · obtain ⟨j, rfl⟩ := Nat.exists_eq_add_of_le (Nat.le_of_not_lt hlt)
      rw [boundary_cons, ih]
      constructor
      · rintro ⟨k, rfl⟩
        exact ⟨k + 1, rfl⟩
      · rintro ⟨_ | k, hk⟩
        · simp only [byteIndex_zero] at hk
          omega
        · exact ⟨k, by simpa [byteIndex] using hk⟩

/-! ## Positions among the bytes -/

theorem length_utf8_take (s : Text) (i : Nat) : (utf8 (s.take i)).length = byteIndex s i := by
  fun_induction byteIndex s i with
  | case1 i => rw [List.take_nil]; rfl
  | case2 c s => rfl
  | case3 c s i ih =>
    rw [List.take_succ_cons, utf8_cons, List.length_append, ih, String.length_utf8EncodeChar]

theorem byteIndex_of_le {s : Text} {i : Nat} (h : s.length ≤ i) :
    byteIndex s i = (utf8 s).length := by
  rw [← length_utf8_take, List.take_of_length_le h]

theorem byteIndex_add (s : Text) (i j : Nat) :
    byteIndex s (i + j) = byteIndex s i + byteIndex (s.drop i) j := by
  induction i generalizing s with
  | zero => simp
  | succ i ih =>
    cases s with
    | nil => simp [byteIndex]
    | cons c s => rw [Nat.succ_add, byteIndex, byteIndex, ih, List.drop_succ_cons, Nat.add_assoc]

theorem byteIndex_mono (s : Text) {i j : Nat} (h : i ≤ j) : byteIndex s i ≤ byteIndex s j := by
  obtain ⟨k, rfl⟩ := Nat.exists_eq_add_of_le h
  rw [byteIndex_add]
  exact Nat.le_add_right _ _

theorem byteIndex_lt {s : Text} {i j : Nat} (h : i < j) (hj : j ≤ s.length) :
    byteIndex s i < byteIndex s j := by
  obtain ⟨k, rfl⟩ := Nat.exists_eq_add_of_lt h
  have hi : i < s.length := by omega
  have hpos := s[i].utf8Size_pos
  rw [Nat.add_assoc, byteIndex_add, List.drop_eq_getElem_cons hi, byteIndex]
  omega

/-- Inside the text, longer pieces have more bytes. -/
theorem byteIndex_lt_iff {s : Text} {i j : Nat} (hj : j ≤ s.length) :
    byteIndex s i < byteIndex s j ↔ i < j := by
  constructor
  · intro h
    exact Nat.lt_of_not_le fun hle => Nat.not_le_of_lt h (byteIndex_mono s hle)
  · intro h
    exact byteIndex_lt h hj

theorem utf8_take (s : Text) (i : Nat) : utf8 (s.take i) = (utf8 s).take (byteIndex s i) := by
  have h : utf8 s = utf8 (s.take i) ++ utf8 (s.drop i) := by
    rw [← utf8_append, List.take_append_drop]
  rw [h, ← length_utf8_take, List.take_left]

theorem utf8_drop (s : Text) (i : Nat) : utf8 (s.drop i) = (utf8 s).drop (byteIndex s i) := by
  have h : utf8 s = utf8 (s.take i) ++ utf8 (s.drop i) := by
    rw [← utf8_append, List.take_append_drop]
  rw [h, ← length_utf8_take, List.drop_left]

/-! ## Slices -/

/-- The text whose UTF-8 form stands between two places; none where they come in the wrong order
or one of them is no boundary. -/
def cut? (s : Text) (i j : Nat) : Option Text :=
  if i ≤ j ∧ Boundary s i ∧ Boundary s j then
    (((utf8 s).take j).drop i).toByteArray.utf8Decode?.map Array.toList
  else none

/-- A slice taken by its bytes. -/
def byteSlice? (s : Text) (i j : Nat) : Option Text :=
  if j ≤ i then some [] else cut? s (byteIndex s i) (byteIndex s j)

def byteSliceFrom? (s : Text) (i : Nat) : Option Text :=
  cut? s (byteIndex s i) (utf8 s).length

/-- The bytes between two positions are those of the characters between them. -/
theorem cut?_byteIndex (s : Text) {i j : Nat} (h : i ≤ j) :
    cut? s (byteIndex s i) (byteIndex s j) = some (slice s i j) := by
  have hbytes : ((utf8 s).take (byteIndex s j)).drop (byteIndex s i) = utf8 (slice s i j) := by
    rw [slice, utf8_drop, utf8_take, ← length_utf8_take (s.take j), List.take_take,
      Nat.min_eq_left h, length_utf8_take]
  rw [cut?, if_pos ⟨byteIndex_mono s h, boundary_iff.2 ⟨i, rfl⟩, boundary_iff.2 ⟨j, rfl⟩⟩, hbytes,
    utf8Decode?_utf8]
  rfl

theorem byteSlice?_eq (s : Text) (i j : Nat) : byteSlice? s i j = some (slice s i j) := by
  unfold byteSlice?
  split
  · rename_i h
    rw [slice_eq_nil h]
  · rename_i h
    exact cut?_byteIndex s (Nat.le_of_not_le h)

theorem byteSliceFrom?_eq (s : Text) (i : Nat) : byteSliceFrom? s i = some (sliceFrom s i) := by
  have hend : byteIndex s (max i s.length) = (utf8 s).length := byteIndex_of_le (by omega)
  rw [byteSliceFrom?, ← hend, cut?_byteIndex s (Nat.le_max_left i s.length), slice,
    List.take_of_length_le (Nat.le_max_right i s.length)]
  rfl

theorem getElem?_slice (s : Text) (i j k : Nat) :
    (slice s i j)[k]? = if i + k < j then s[i + k]? else none := by
  rw [slice, List.getElem?_drop, List.getElem?_take]

/-- Slices are exact in characters and in bytes. The place of a position among the bytes is the
length of the UTF-8 form of the characters before it. It grows with the position, stays at the end
behind the last character, and is always a boundary, so that taking a slice by its bytes never
fails. What a slice holds are the characters from its first position up to its second one, and the
slices in front of a position and from it on make up the text. -/
theorem slices_agree (s : Text) :
    (∀ i, byteIndex s i = (utf8 (s.take i)).length) ∧
    (∀ i, s.length ≤ i → byteIndex s i = (utf8 s).length) ∧
    (∀ i j, i ≤ j → byteIndex s i ≤ byteIndex s j) ∧
    (∀ i, Boundary s (byteIndex s i)) ∧
    (∀ i j, byteSlice? s i j = some (slice s i j)) ∧
    (∀ i, byteSliceFrom? s i = some (sliceFrom s i)) ∧
    (∀ i j k, (slice s i j)[k]? = if i + k < j then s[i + k]? else none) ∧
    (∀ i j, j ≤ i → slice s i j = []) ∧
    ∀ k, slice s 0 k ++ sliceFrom s k = s := by
  refine ⟨fun i => (length_utf8_take s i).symm, fun i => byteIndex_of_le,
    fun i j => byteIndex_mono s, fun i => boundary_iff.2 ⟨i, rfl⟩, byteSlice?_eq s,
    byteSliceFrom?_eq s, getElem?_slice s, fun i j => slice_eq_nil, ?_⟩
  exact slice_zero_append_sliceFrom s

/-- A character of two bytes between two of one. -/
example : byteIndex ['(', 'λ', ')'] 2 = 3 ∧ ¬Boundary ['(', 'λ', ')'] 2 ∧
    byteSlice? ['(', 'λ', ')'] 1 2 = some ['λ'] := by
  decide +kernel

end StructEdit.Text
