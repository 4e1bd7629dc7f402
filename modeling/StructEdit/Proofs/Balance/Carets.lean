import StructEdit.Proofs.Balance.Standpoints
import StructEdit.Document.Lists

/-!
# Carets in tokens

A caret may stand inside a token. No bracket lies between the start of the token and the
caret, so the lists that are open there are those of the cursor, and the place is known as
far as the kind of the token tells it. A motion forward from the token leads past the
caret.
-/
namespace StructEdit

namespace Cursor

theorem seek_stops (offset : Nat) (before : List Placed) (here : Placed) (after : List Placed) :
    (seek offset before here after).after = [] ∨
      ∃ n rest, (seek offset before here after).after = n :: rest ∧ offset < n.start := by
  induction after generalizing before here with
  | nil => exact Or.inl rfl
  | cons n after ih =>
    simp only [seek]
    split
    · exact ih (here :: before) n
    · exact Or.inr ⟨n, after, rfl, by omega⟩

variable {b : Buffer} {c d : Cursor}

theorem In.raw_of_lineEnd (h : c.In b) (hp : Phase .code b.placed) (hk : c.kind = .lineEnd) :
    c.raw = ['\n'] := (h.phase hp).2.2.1.lineEnd hk

theorem In.length_raw_closing (h : c.In b) (hk : c.kind = .closing) : c.raw.length = 1 := by
  obtain ⟨l, -, ht⟩ := mem_placeLines h.here_mem
  have hone : ∀ s ∈ Bracket.closers, s.length = 1 := by decide
  exact hone _ (l.scannedTokens.mem_closers _ ht hk)

theorem In.start_of_after_nil (h : c.In b) (hnil : c.after = []) : c.start = b.maxOffset := by
  have hraw := congrArg List.length h.rawText
  rw [hnil, h.raw_of_after_nil hnil] at hraw
  simp only [rawText_nil, List.append_nil, List.length_append, List.length_singleton] at hraw
  rw [h.abut.1, ← b.length_text]
  omega

theorem In.drop_of_after_nil (h : c.In b) (hnil : c.after = []) : b.text.drop c.start = [] := by
  rw [h.start_of_after_nil hnil, ← b.length_text]
  exact List.drop_length

/-- At the end of a balanced text no list is open. -/
theorem In.lists_of_after_nil (h : c.In b) (hb : b.Nested) (hnil : c.after = []) :
    b.text.listsAt c.start = [] := by
  have hclose := hb.balanced.closes_drop c.start
  rw [h.drop_of_after_nil hnil] at hclose
  exact Option.some.inj hclose.1

theorem In.before_length_lt (hc : c.In b) (hd : d.In b) (h : c.start < d.start) :
    c.before.length < d.before.length := by
  rcases Nat.lt_or_ge c.before.length d.before.length with hlt | hge
  · exact hlt
  · have := hd.start_mono hc hge
    omega

/-- Two cursors of a buffer are one token apart at least. -/
theorem In.stop_le_start (hc : c.In b) (hd : d.In b) (h : c.before.length < d.before.length) :
    c.start + c.raw.length ≤ d.start := by
  have hbefore : d.before.reverse = b.placed.take d.before.length := hd.before_eq
  have hsplit : b.placed.take d.before.length =
      c.before.reverse ++ c.here :: c.after.take (d.before.length - c.before.length - 1) := by
    rw [← hc, toList, List.take_append, List.length_reverse,
      List.take_of_length_le (by rw [List.length_reverse]; omega)]
    obtain ⟨k, hk⟩ : ∃ k, d.before.length - c.before.length = k + 1 :=
      ⟨d.before.length - c.before.length - 1, by omega⟩
    rw [hk, List.take_succ_cons, Nat.add_sub_cancel]
  rw [hd.abut.1, hbefore, hsplit, rawText_append, rawText_cons, hc.abut.1]
  simp only [List.length_append, raw]
  omega

theorem In.start_lt (hc : c.In b) (hd : d.In b) (h : c.before.length < d.before.length) :
    c.start < d.start := by
  have hpos := hc.raw_length_pos
  have := hc.stop_le_start hd h
  omega

theorem In.eq_of_start (hc : c.In b) (hd : d.In b) (h : c.start = d.start) : c = d := by
  have hlen : c.before.length = d.before.length := by
    rcases Nat.lt_trichotomy c.before.length d.before.length with hlt | heq | hgt
    · exact absurd h (Nat.ne_of_lt (hc.start_lt hd hlt))
    · exact heq
    · exact absurd h.symm (Nat.ne_of_lt (hd.start_lt hc hgt))
  have hbefore : c.before = d.before := by
    rw [← List.reverse_inj, hc.before_eq, hd.before_eq, hlen]
  have htokens : c.toList = d.toList := hc.trans hd.symm
  obtain ⟨before, here, after⟩ := c
  obtain ⟨before', here', after'⟩ := d
  obtain rfl : before = before' := hbefore
  rw [toList, toList] at htokens
  obtain ⟨rfl, rfl⟩ := List.cons.inj (List.append_cancel_left htokens)
  rfl

/-- Behind the first characters of a token. -/
theorem In.part {n : Nat} (h : c.In b) (hn : n ≤ c.raw.length) (hmax : c.start + n ≤ b.maxOffset) :
    b.text.placeAt (c.start + n) = (b.text.placeAt c.start).after (c.raw.take n) ∧
      b.text.fencesBetween c.start (c.start + n) =
        (b.text.placeAt c.start).fences (c.raw.take n) := by
  have htake : b.text.take (c.start + n) = b.text.take c.start ++ c.raw.take n := by
    have htext : b.text.take (c.start + n) = (b.text ++ ['\n']).take (c.start + n) :=
      (List.take_append_of_le_length (by rw [b.length_text]; exact hmax)).symm
    rw [htext, ← h.rawText, h.take_text, List.take_append, ← h.abut.1,
      List.take_of_length_le (by rw [← h.abut.1]; omega), Nat.add_sub_cancel_left,
      List.take_append_of_le_length hn]
  have hlen : (b.text.take c.start).length = c.start := by
    rw [List.length_take, b.length_text, Nat.min_eq_left h.start_le]
  constructor
  · rw [Text.placeAt, htake, Place.after_append]
    rfl
  · rw [Text.fencesBetween, htake, List.drop_left' hlen]

theorem sexpAhead_not_found {comments : Bool} {depth : Nat} {before : List Placed} {here : Placed}
    {after : List Placed} (h : (sexpAhead comments depth before here after).found = false) :
    (sexpAhead comments depth before here after).cursor.after = [] := by
  fun_induction sexpAhead comments depth before here after with
  | case1 => rfl
  | case2 _ _ _ _ _ _ ih => exact ih h
  | case3 _ _ _ _ _ _ ih => exact ih h
  | case4 => simp at h
  | case5 _ _ _ _ _ _ _ ih => exact ih h
  | case6 => simp at h
  | case7 _ _ _ _ _ _ _ ih => exact ih h
  | case8 => simp at h
  | case9 _ _ _ _ _ _ _ ih => exact ih h

/-- A motion over an expression that has found it has come to a later token. -/
theorem In.lt_forwardSexp {comments : Bool} (h : c.In b)
    (hf : (c.forwardSexp comments).found = true) :
    c.start < (c.forwardSexp comments).cursor.start := by
  have hin := h.forwardSexp comments
  have hlt := forwardSexp_found_lt hf
  have hlen := congrArg List.length (h.trans hin.symm)
  simp only [toList, List.length_append, List.length_reverse, List.length_cons] at hlen
  exact h.start_lt hin (by omega)

/-- A motion back over an expression that has found it has come to an earlier token. -/
theorem In.backwardSexp_lt {comments : Bool} (h : c.In b)
    (hf : (c.backwardSexp comments).found = true) :
    (c.backwardSexp comments).cursor.start < c.start :=
  (h.backwardSexp comments).start_lt h (backwardSexp_found_lt hf)

/-- A motion over an expression moves, unless a closing bracket or the end comes first. -/
theorem In.forwardSexp_moves (h : c.In b) (comments : Bool) :
    (c.forwardSexp comments).cursor.kind = .closing ∨ (c.forwardSexp comments).cursor.after = [] ∨
      c.start < (c.forwardSexp comments).cursor.start := by
  cases hf : (c.forwardSexp comments).found with
  | true => exact Or.inr (Or.inr (h.lt_forwardSexp hf))
  | false =>
    simp only [Cursor.forwardSexp] at hf ⊢
    split
    · rename_i hk
      exact Or.inl hk
    · rename_i hk
      rw [if_neg hk] at hf
      exact Or.inr (Or.inl (sexpAhead_not_found hf))

end Cursor

namespace Buffer

variable {b : Buffer} {i : Nat}

/-- The token at an offset of the buffer stops behind it. -/
theorem lt_cursorAt (hi : i ≤ b.maxOffset) :
    i < (b.cursorAt i).start + (b.cursorAt i).raw.length := by
  have hin := b.in_cursorAt i
  rcases Cursor.seek_stops i b.firstCursor.before b.firstCursor.here b.firstCursor.after with
    hnil | ⟨n, rest, hafter, hlt⟩
  · have hstart := hin.start_of_after_nil hnil
    have hpos := hin.raw_length_pos
    omega
  · have hafter' : (b.cursorAt i).after = n :: rest := hafter
    have habut := hin.abut.2
    rw [hafter'] at habut
    have hstop : n.start = (b.cursorAt i).start + (b.cursorAt i).raw.length := habut.1
    omega

/-- The reader comes to the caret through the first part of its token. -/
theorem piece_cursorAt (hp : Phase .code b.placed) (hi : i ≤ b.maxOffset) :
    Suits (b.text.placeAt (b.cursorAt i).start) (b.cursorAt i).kind (b.cursorAt i).raw ∧
      b.text.placeAt i = (b.text.placeAt (b.cursorAt i).start).after
        ((b.cursorAt i).raw.take (i - (b.cursorAt i).start)) ∧
      b.text.fencesBetween (b.cursorAt i).start i = [] := by
  have hin := b.in_cursorAt i
  have hlt := lt_cursorAt hi
  have hsuits : Suits _ (b.cursorAt i).kind (b.cursorAt i).raw := (hin.phase hp).2.2.1
  have hsum : (b.cursorAt i).start + (i - (b.cursorAt i).start) = i :=
    Nat.add_sub_cancel' (b.start_cursorAt_le i)
  obtain ⟨hplace, hfences⟩ := hin.part (show i - (b.cursorAt i).start ≤ _ by omega) (by omega)
  rw [hsum] at hplace hfences
  exact ⟨hsuits, hplace, hfences.trans (hsuits.part _ (by omega))⟩

/-- Either the caret stands at the start of its token, or the kind of the token tells the place. -/
theorem place_cursorAt (hp : Phase .code b.placed) (hi : i ≤ b.maxOffset) :
    (b.cursorAt i).start = i ∨
      (b.cursorAt i).start < i ∧ (b.cursorAt i).kind.Holds (b.text.placeAt i) := by
  obtain ⟨hsuits, hplace, -⟩ := piece_cursorAt hp hi
  have hlt := lt_cursorAt hi
  rcases Nat.eq_or_lt_of_le (b.start_cursorAt_le i) with heq | hgt
  · exact Or.inl heq
  · refine Or.inr ⟨hgt, ?_⟩
    rw [hplace]
    exact hsuits.holds _ (by omega) (by omega)

/-- Outside of strings, only a line end stands behind a backslash. -/
theorem lineEnd_of_escape (hp : Phase .code b.placed) (hi : i ≤ b.maxOffset)
    (hs : (b.cursorAt i).withinString = false) (he : b.text.placeAt i = .escape) :
    (b.cursorAt i).start = i ∧ (b.cursorAt i).kind = .lineEnd := by
  rcases place_cursorAt hp hi with heq | ⟨-, hholds⟩
  · refine ⟨heq, ?_⟩
    have hadmits := (piece_cursorAt hp hi).1.admits
    rw [heq, he] at hadmits
    simpa [Place.admits] using hadmits
  · rw [he] at hholds
    have hstring : (b.cursorAt i).kind.isString = true := hholds
    simp [Cursor.withinString, hstring] at hs

/-- A motion forward that moves, or ends before a closing bracket or at the end, leads past the
caret. -/
theorem le_of_forward (hi : i ≤ b.maxOffset) {d : Cursor}
    (hd : d.In b) (hle : (b.cursorAt i).start ≤ d.start)
    (h : d.kind = .closing ∨ d.after = [] ∨ (b.cursorAt i).start < d.start) : i ≤ d.start := by
  have hin := b.in_cursorAt i
  have hlt := lt_cursorAt hi
  rcases Nat.eq_or_lt_of_le hle with heq | hgt
  · obtain rfl := hin.eq_of_start hd heq
    rcases h with hk | hnil | hgt
    · rw [hin.length_raw_closing hk] at hlt
      omega
    · rw [hin.start_of_after_nil hnil]
      exact hi
    · omega
  · have := hin.stop_le_start hd (hin.before_length_lt hd hgt)
    omega

theorem le_forwardList? (hi : i ≤ b.maxOffset) {e : Cursor}
    (he : (b.cursorAt i).forwardList? = some e) : i ≤ e.start := by
  have hin := b.in_cursorAt i
  have hle := hin.start_mono (hin.forwardList? he) (Cursor.before_length_le_forwardList? he)
  exact le_of_forward hi (hin.forwardList? he) hle (Or.inl (Cursor.forwardList?_eq_some he).2)

namespace Nested

variable (hb : b.Nested) (hi : i ≤ b.maxOffset)
include hb hi

theorem inComment_iff : (b.cursorAt i).inComment i = true ↔ b.text.placeAt i = .comment := by
  have hat := (b.in_cursorAt i).at hb
  simp only [Cursor.inComment, Bool.or_eq_true, Bool.and_eq_true, beq_iff_eq, decide_eq_true_eq,
    ← hat.comment_iff]
  rcases Buffer.place_cursorAt hb.phase hi with heq | ⟨hgt, hholds⟩
  · rw [heq]
    simp
  · have hline : b.text.placeAt (b.cursorAt i).start ≠ .comment := by
      intro hcomment
      have hadmits := hat.suits.admits
      rw [hcomment] at hadmits
      have hk : (b.cursorAt i).kind = .lineEnd := by simpa [Place.admits] using hadmits
      have hlt := lt_cursorAt hi
      rw [(b.in_cursorAt i).raw_of_lineEnd hb.phase hk] at hlt
      simp at hlt
      omega
    simp only [hline, or_false, hgt, and_true]
    constructor
    · intro hk
      rw [hk] at hholds
      generalize b.text.placeAt i = p at hholds
      cases p <;> simp_all [Kind.Holds, Kind.isString]
    · intro hp
      rw [hp] at hholds
      exact hholds

/-! ## Motions from the caret -/

theorem caret_forward {d : Cursor} (hid : i ≤ d.start) :
    b.text.fencesBetween (b.cursorAt i).start d.start = b.text.fencesBetween i d.start := by
  rw [Text.fencesBetween_append b.text (b.start_cursorAt_le i) hid,
    (piece_cursorAt hb.phase hi).2.2, List.nil_append]

theorem caret_forwardSexp (comments : Bool) :
    i ≤ ((b.cursorAt i).forwardSexp comments).cursor.start ∧
      Cursor.Ends (b.text.placeAt ((b.cursorAt i).forwardSexp comments).cursor.start)
        ((b.cursorAt i).forwardSexp comments).cursor ∧
      ∃ l, l.length ≤ 1 ∧
        nest l (b.text.fencesBetween i ((b.cursorAt i).forwardSexp comments).cursor.start) =
          some [] := by
  have hin := b.in_cursorAt i
  obtain ⟨hle, hends, l, hl, hnest, -⟩ := hin.walk_forwardSexp hb comments
  have hid := le_of_forward hi (hin.forwardSexp comments) hle (hin.forwardSexp_moves comments)
  rw [hb.caret_forward hi hid] at hnest
  exact ⟨hid, hends, l, hl, hnest⟩

theorem caret_forwardList? {e : Cursor} (he : (b.cursorAt i).forwardList? = some e) :
    i ≤ e.start ∧ ∃ l, nest l (b.text.fencesBetween i e.start) = some [] := by
  obtain ⟨-, l, hnest⟩ := (b.in_cursorAt i).walk_forwardList? hb he
  have hid := le_forwardList? hi he
  rw [hb.caret_forward hi hid] at hnest
  exact ⟨hid, l, hnest⟩

theorem caret_backwardList? {o : Cursor} (ho : (b.cursorAt i).backwardList? = some o) :
    o.start ≤ i ∧ ∃ m, nest [] (b.text.fencesBetween o.start i) = some m := by
  obtain ⟨hle, m, hnest⟩ := (b.in_cursorAt i).walk_backwardList? hb ho
  have hci := b.start_cursorAt_le i
  refine ⟨Nat.le_trans hle hci, m, ?_⟩
  rw [Text.fencesBetween_append b.text hle hci, (piece_cursorAt hb.phase hi).2.2, List.append_nil]
  exact hnest

end Nested
end Buffer
end StructEdit
