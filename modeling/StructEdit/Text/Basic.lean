/-!
# Text as characters

A text is the list of its characters, and every position in this library
counts characters. The only byte count is `byteIndex`, the place of a character
position in the UTF-8 form of the text. Positions past the end saturate: they
behave like the end of the text.
-/
namespace StructEdit

abbrev Text := List Char

namespace Text

/-- The UTF-8 length of the first `i` characters of `s`, of all of them when there are fewer. -/
def byteIndex : Text → Nat → Nat
  | [], _ => 0
  | _ :: _, 0 => 0
  | c :: s, i + 1 => c.utf8Size + byteIndex s i

/-- The characters of `s` from position `i` up to position `j`; none when `j ≤ i`. -/
def slice (s : Text) (i j : Nat) : Text :=
  (s.take j).drop i

/-- The characters of `s` from position `i` on. -/
def sliceFrom (s : Text) (i : Nat) : Text :=
  s.drop i

@[simp] theorem byteIndex_zero (s : Text) : byteIndex s 0 = 0 := by
  cases s <;> rfl

theorem slice_eq_nil {s : Text} {i j : Nat} (h : j ≤ i) : slice s i j = [] := by
  simp only [slice, List.drop_eq_nil_iff, List.length_take]
  omega

@[simp] theorem slice_zero (s : Text) (j : Nat) : slice s 0 j = s.take j := rfl

theorem slice_zero_append_sliceFrom (s : Text) (k : Nat) :
    slice s 0 k ++ sliceFrom s k = s := by
  simp [slice, sliceFrom]

end Text
end StructEdit
