import StructEdit.Proofs.Balance.Balanced

/-!
# Texts in pieces

At each offset of a text a reader knows its place and the lists that are open there. A command
puts another text between two offsets. When the reader comes out of it at the place where it
would have been, the new text is balanced exactly when the open lists are also those that
the rest of the old text goes on with.
-/
namespace StructEdit

structure Piece (p : Place) (s : Text) (fs : List Fence) (q : Place) : Prop where
  fences : p.fences s = fs
  after : p.after s = q

namespace Piece

theorem nil (p : Place) : Piece p [] [] p := ⟨rfl, rfl⟩

theorem append {p q r : Place} {s t : Text} {fs gs : List Fence} (hs : Piece p s fs q)
    (ht : Piece q t gs r) : Piece p (s ++ t) (fs ++ gs) r where
  fences := by rw [Place.fences_append, hs.fences, hs.after, ht.fences]
  after := by rw [Place.after_append, hs.after, ht.after]

theorem normalizeBreaks {p q : Place} {s : Text} {fs : List Fence} (h : Piece p s fs q) :
    Piece p (Text.normalizeBreaks s) fs q where
  fences := by rw [Place.fences_normalizeBreaks, h.fences]
  after := by rw [Place.after_normalizeBreaks, h.after]

end Piece

namespace Text

/-- The place of the reader at an offset. -/
def placeAt (s : Text) (i : Nat) : Place := Place.code.after (s.take i)

/-- The lists that are open at an offset, the innermost first. -/
def listsAt (s : Text) (i : Nat) : List Bracket := (nest [] (Place.code.fences (s.take i))).getD []

/-- The brackets that count between two offsets. -/
def fencesBetween (s : Text) (i j : Nat) : List Fence := (s.placeAt i).fences ((s.take j).drop i)

/-- The lists that are opened between two offsets, as far as they are still open at the second. -/
def opened (s : Text) (i j : Nat) : List Bracket :=
  (s.listsAt j).take ((s.listsAt j).length - (s.listsAt i).length)

/-- The lists open at the first offset that are closed before the second. -/
def closed (s : Text) (i j : Nat) : List Bracket :=
  (s.listsAt i).take ((s.listsAt i).length - (s.listsAt j).length)

/-- The text can be read to its end from the place `p` on, when `lists` are open. -/
def Closes (p : Place) (lists : List Bracket) (s : Text) : Prop :=
  nest lists (p.fences s) = some [] ∧ (p.after s).isFinal = true

instance (p : Place) (lists : List Bracket) (s : Text) : Decidable (s.Closes p lists) :=
  inferInstanceAs (Decidable (_ ∧ _))

variable {s : Text} {i j k : Nat}

theorem take_append_between (s : Text) (h : i ≤ j) : s.take i ++ (s.take j).drop i = s.take j := by
  have := List.take_append_drop i (s.take j)
  rwa [List.take_take, Nat.min_eq_left h] at this

theorem slice_append_drop (s : Text) (h : i ≤ j) : s.slice i j ++ s.drop j = s.drop i := by
  have hrest : s.drop j = (s.drop i).drop (j - i) := by rw [List.drop_drop, Nat.add_sub_of_le h]
  rw [slice, List.drop_take, hrest, List.take_append_drop]

theorem piece_take (s : Text) (i : Nat) :
    Piece .code (s.take i) (Place.code.fences (s.take i)) (s.placeAt i) := ⟨rfl, rfl⟩

theorem piece_between (s : Text) (h : i ≤ j) :
    Piece (s.placeAt i) ((s.take j).drop i) (s.fencesBetween i j) (s.placeAt j) := by
  refine ⟨rfl, ?_⟩
  rw [placeAt, ← Place.after_append, take_append_between s h]
  rfl

theorem fences_take (s : Text) (h : i ≤ j) :
    Place.code.fences (s.take j) = Place.code.fences (s.take i) ++ s.fencesBetween i j := by
  rw [← take_append_between s h, Place.fences_append]
  rfl

theorem slice_append_slice (s : Text) (h : i ≤ j) (h' : j ≤ k) :
    s.slice i j ++ s.slice j k = s.slice i k := by
  unfold slice
  by_cases hle : j ≤ s.length
  · have hcut := congrArg (List.drop i) (take_append_between s h')
    rwa [List.drop_append_of_le_length (by rw [List.length_take]; omega)] at hcut
  · have hj : s.take j = s := List.take_of_length_le (by omega)
    have hk : s.take k = s := List.take_of_length_le (by omega)
    rw [hj, hk, List.drop_eq_nil_of_le (show s.length ≤ j by omega), List.append_nil]

theorem fencesBetween_append (s : Text) (h : i ≤ j) (h' : j ≤ k) :
    s.fencesBetween i k = s.fencesBetween i j ++ s.fencesBetween j k := by
  have hsplit : (s.take k).drop i = (s.take j).drop i ++ (s.take k).drop j :=
    (slice_append_slice s h h').symm
  rw [fencesBetween, hsplit, Place.fences_append, (piece_between s h).after]
  rfl

theorem closes_append {p q : Place} {t u : Text} {fs : List Fence} {lists : List Bracket}
    (ht : Piece p t fs q) :
    Closes p lists (t ++ u) ↔ ∃ m, nest lists fs = some m ∧ Closes q m u := by
  rw [Closes, Place.fences_append, Place.after_append, ht.fences, ht.after, nest_append_eq_some]
  constructor
  · rintro ⟨⟨m, hm, hu⟩, hfinal⟩
    exact ⟨m, hm, hu, hfinal⟩
  · rintro ⟨m, hm, hu, hfinal⟩
    exact ⟨⟨m, hm, hu⟩, hfinal⟩

/-! ## Balanced texts -/

/-- A reader at the place `q` goes on with the text from an offset on as the text does, or the text
ends there and may end at `q`. -/
def Rejoins (s : Text) (q : Place) (j : Nat) : Prop :=
  q = s.placeAt j ∨ q.isFinal = true ∧ s.drop j = []

/-- A piece that leads back into a text that does not end in a string leaves it so. -/
theorem Rejoins.isFinal {mid : Text} {fs : List Fence} {q : Place} (hq : s.Rejoins q j)
    (hm : Piece (s.placeAt i) mid fs q) (hs : (Place.code.after s).isFinal = true) :
    (Place.code.after (s.take i ++ mid ++ s.drop j)).isFinal = true := by
  have hplace : (s.placeAt i).after mid = q := hm.after
  rw [Place.after_append, Place.after_append, ← placeAt, hplace]
  rcases hq with rfl | ⟨hfinal, hnil⟩
  · rwa [placeAt, ← Place.after_append, List.take_append_drop]
  · rw [hnil]
    exact hfinal

structure FenceAt (s : Text) (i j : Nat) (f : Fence) : Prop where
  le : i ≤ j
  start : s.placeAt i = .code
  stop : s.placeAt j = .code
  between : s.fencesBetween i j = [f]

namespace Balanced

variable (h : s.Balanced)
include h

theorem cut (i : Nat) : nest [] (Place.code.fences (s.take i)) = some (s.listsAt i) ∧
    Closes (s.placeAt i) (s.listsAt i) (s.drop i) := by
  obtain ⟨hnest, hfinal⟩ := h
  rw [← List.take_append_drop i s, Place.fences_append] at hnest
  rw [← List.take_append_drop i s, Place.after_append] at hfinal
  obtain ⟨m, hm, hrest⟩ := nest_append_eq_some.1 hnest
  have hlists : s.listsAt i = m := by rw [listsAt, hm, Option.getD_some]
  rw [hlists]
  exact ⟨hm, hrest, hfinal⟩

theorem nest_take (i : Nat) : nest [] (Place.code.fences (s.take i)) = some (s.listsAt i) :=
  (h.cut i).1

theorem closes_drop (i : Nat) : Closes (s.placeAt i) (s.listsAt i) (s.drop i) := (h.cut i).2

/-- The rest of a balanced text needs the lists that are open where it starts. -/
theorem closes_drop_iff {q : Place} (hq : s.Rejoins q j) {lists : List Bracket} :
    Closes q lists (s.drop j) ↔ lists = s.listsAt j := by
  have hclose := h.closes_drop j
  rcases hq with rfl | ⟨hfinal, hnil⟩
  · constructor
    · intro hl
      have := (nest_of_closes hclose.1).1 hl.1
      rwa [List.append_nil] at this
    · rintro rfl
      exact hclose
  · rw [hnil] at hclose ⊢
    have hlists : s.listsAt j = [] := Option.some.inj hclose.1
    rw [hlists]
    constructor
    · intro hl
      exact Option.some.inj hl.1
    · rintro rfl
      exact ⟨rfl, hfinal⟩

theorem nest_between (hij : i ≤ j) :
    nest (s.listsAt i) (s.fencesBetween i j) = some (s.listsAt j) := by
  have hj := h.nest_take j
  rw [fences_take s hij] at hj
  obtain ⟨m, hm, hrest⟩ := nest_append_eq_some.1 hj
  obtain rfl := Option.some.inj ((h.nest_take i).symm.trans hm)
  exact hrest

/-- Another text behind an offset. -/
theorem take_append_iff {t : Text} :
    Text.Balanced (s.take i ++ t) ↔ Closes (s.placeAt i) (s.listsAt i) t := by
  have hcode : Text.Balanced (s.take i ++ t) ↔ Closes .code [] (s.take i ++ t) := Iff.rfl
  rw [hcode, closes_append (piece_take s i), h.nest_take i]
  simp

/-- A text in the place of what lies between two offsets, that the reader leaves at some place. -/
theorem splice_iff_closes {mid : Text} {fs : List Fence} {q : Place}
    (hm : Piece (s.placeAt i) mid fs q) :
    Text.Balanced (s.take i ++ mid ++ s.drop j) ↔
      ∃ lists, nest (s.listsAt i) fs = some lists ∧ Closes q lists (s.drop j) := by
  rw [List.append_assoc, h.take_append_iff, closes_append hm]

/-- A text in the place of what lies between two offsets, that the reader leaves where it would have
been: only the open lists matter. -/
theorem splice_iff {mid : Text} {fs : List Fence} {q : Place} (hm : Piece (s.placeAt i) mid fs q)
    (hq : s.Rejoins q j) :
    Text.Balanced (s.take i ++ mid ++ s.drop j) ↔ nest (s.listsAt i) fs = some (s.listsAt j) := by
  rw [h.splice_iff_closes hm]
  constructor
  · rintro ⟨lists, hfs, hclose⟩
    rw [hfs, (h.closes_drop_iff hq).1 hclose]
  · intro hfs
    exact ⟨_, hfs, (h.closes_drop_iff hq).2 rfl⟩

/-! ## Lists on the way -/

theorem lists_opened {m : List Bracket} (hij : i ≤ j)
    (hm : nest [] (s.fencesBetween i j) = some m) :
    s.opened i j = m ∧ s.listsAt j = m ++ s.listsAt i := by
  have hj := (nest_of_opens hm (s.listsAt i)).symm.trans (h.nest_between hij)
  have hlists := (Option.some.inj hj).symm
  refine ⟨?_, hlists⟩
  rw [opened, hlists, List.length_append, Nat.add_sub_cancel, List.take_left]

theorem lists_closed {l : List Bracket} (hij : i ≤ j)
    (hl : nest l (s.fencesBetween i j) = some []) :
    s.closed i j = l ∧ s.listsAt i = l ++ s.listsAt j := by
  have hlists := (nest_of_closes hl).1 (h.nest_between hij)
  refine ⟨?_, hlists⟩
  rw [closed, hlists, List.length_append, Nat.add_sub_cancel, List.take_left]

theorem lists_of_fences_nil (hij : i ≤ j) (hnil : s.fencesBetween i j = []) :
    s.listsAt j = s.listsAt i := by
  have := h.nest_between hij
  rw [hnil] at this
  exact (Option.some.inj this).symm

theorem lists_opening {b : Bracket} (hf : s.FenceAt i j (.opens b)) :
    s.listsAt j = b :: s.listsAt i := by
  have := h.nest_between hf.le
  rw [hf.between] at this
  exact (Option.some.inj this).symm

theorem lists_closing {b : Bracket} (hf : s.FenceAt i j (.closes b)) :
    s.listsAt i = b :: s.listsAt j := by
  have := h.nest_between hf.le
  rw [hf.between] at this
  obtain ⟨rest, hrest, hnil⟩ := nest_closes_eq_some.1 this
  rw [hrest, Option.some.inj hnil]

end Balanced
end Text

/-! ## Delimiters as pieces -/

namespace Place

/-- A text without quotes, backslashes and breaks does not lead out of a comment or a string. -/
theorem piece_quiet {p : Place} (hp : p ≠ .code) {s : Text} (hs : s ≠ [])
    (hq : ∀ c ∈ s, c ≠ '"' ∧ c ≠ '\\' ∧ c ≠ '\n') :
    Piece p s [] (if p = .escape then .string else p) := by
  have hcomment : ∀ s : Text, (∀ c ∈ s, c ≠ '"' ∧ c ≠ '\\' ∧ c ≠ '\n') →
      Piece .comment s [] .comment := by
    intro s
    induction s with
    | nil => exact fun _ => .nil _
    | cons c s ih =>
      intro hq
      have hc := hq c List.mem_cons_self
      have := ih fun d hd => hq d (List.mem_cons_of_mem _ hd)
      have hstep : Place.comment.step c = .comment := by simp [step, hc.2.2]
      constructor
      · rw [fences, hstep, this.fences]
        rfl
      · rw [after, hstep, this.after]
  have hstring : ∀ s : Text, (∀ c ∈ s, c ≠ '"' ∧ c ≠ '\\' ∧ c ≠ '\n') →
      Piece .string s [] .string := by
    intro s
    induction s with
    | nil => exact fun _ => .nil _
    | cons c s ih =>
      intro hq
      have hc := hq c List.mem_cons_self
      have := ih fun d hd => hq d (List.mem_cons_of_mem _ hd)
      have hstep : Place.string.step c = .string := by simp [step, hc.1, hc.2.1]
      constructor
      · rw [fences, hstep, this.fences]
        rfl
      · rw [after, hstep, this.after]
  cases p with
  | code => exact absurd rfl hp
  | comment => exact hcomment s hq
  | string => exact hstring s hq
  | escape =>
    cases s with
    | nil => exact absurd rfl hs
    | cons c s =>
      have := hstring s fun d hd => hq d (List.mem_cons_of_mem _ hd)
      exact ⟨this.fences, this.after⟩

end Place

theorem piece_opener {o : Text} (ho : o ∈ Bracket.openers) {b : Bracket}
    (hb : Bracket.ofText? o = some b) : Piece .code o [.opens b] .code := by
  have hall : ∀ o ∈ Bracket.openers,
      Place.code.fences o = (Bracket.ofText? o).toList.map .opens ∧ Place.code.after o = .code := by
    decide
  obtain ⟨hf, ha⟩ := hall o ho
  rw [hb] at hf
  exact ⟨hf, ha⟩

theorem piece_closer {o : Text} (ho : o ∈ Bracket.closers) {b : Bracket}
    (hb : Bracket.ofText? o = some b) : Piece .code o [.closes b] .code := by
  have hall : ∀ o ∈ Bracket.closers,
      Place.code.fences o = (Bracket.ofText? o).toList.map .closes ∧ Place.code.after o = .code := by
    decide
  obtain ⟨hf, ha⟩ := hall o ho
  rw [hb] at hf
  exact ⟨hf, ha⟩

theorem quiet_of_delimiter {o : Text} (ho : o ∈ Bracket.openers ++ Bracket.closers) :
    o ≠ [] ∧ ∀ c ∈ o, c ≠ '"' ∧ c ≠ '\\' ∧ c ≠ '\n' := by
  have hall : ((Bracket.openers ++ Bracket.closers).all fun o =>
      !o.isEmpty && o.all fun c => c != '"' && c != '\\' && c != '\n') = true := by decide
  have ho' := List.all_eq_true.1 hall o ho
  simpa [and_assoc] using ho'

end StructEdit
