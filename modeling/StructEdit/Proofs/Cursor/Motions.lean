import StructEdit.Proofs.Buffer.Replace
import StructEdit.Proofs.Cursor.Places

/-!
# Where motions lead

Every motion stays in the buffer. Motions forward never lose a token behind the cursor
and motions back never gain one, so their offsets are in order. A motion back that finds an
expression ends on a token that is no blank.
-/
namespace StructEdit
namespace Cursor

variable {c d : Cursor} {b : Buffer}

/-! ## Staying in the buffer -/

theorem In.next? (h : c.In b) (hd : c.next? = some d) : d.In b := (toList_next? hd).trans h

theorem In.prev? (h : c.In b) (hd : c.prev? = some d) : d.In b := (toList_prev? hd).trans h

theorem In.next (h : c.In b) : c.next.In b := by
  unfold Cursor.next
  cases hn : c.next? with
  | none => exact h
  | some d => exact h.next? hn

theorem In.prev (h : c.In b) : c.prev.In b := by
  unfold Cursor.prev
  cases hp : c.prev? with
  | none => exact h
  | some d => exact h.prev? hp

theorem In.forwardSpace (h : c.In b) (comments : Bool) : (c.forwardSpace comments).In b :=
  (toList_spaceAhead comments c.before c.here c.after).trans h

theorem In.backwardSpace (h : c.In b) (comments : Bool) : (c.backwardSpace comments).In b :=
  (toList_spaceBehind comments c.here c.after c.before).trans h

theorem toList_next (c : Cursor) : c.next.toList = c.toList := by
  obtain ⟨before, here, after⟩ := c
  cases after <;> simp [Cursor.next, Cursor.next?, toList]

@[simp] theorem toList_sexpAhead (comments : Bool) (depth : Nat) (before : List Placed)
    (here : Placed) (after : List Placed) :
    (sexpAhead comments depth before here after).cursor.toList =
      before.reverse ++ here :: after := by
  fun_induction sexpAhead comments depth before here after with
  | case1 => rfl
  | case2 _ _ _ _ _ _ ih => simp [ih]
  | case3 _ _ _ _ _ _ ih => simp [ih]
  | case4 => simp [toList]
  | case5 _ _ _ _ _ _ _ ih => simp [ih]
  | case6 => simp [toList]
  | case7 _ _ _ _ _ _ _ ih => simp [ih]
  | case8 => rw [toList_next]; simp [toList]
  | case9 _ _ _ _ _ _ _ ih => simp [ih]

@[simp] theorem toList_sexpBehind (comments : Bool) (depth : Nat) (here : Placed)
    (after before : List Placed) :
    (sexpBehind comments depth here after before).cursor.toList =
      before.reverse ++ here :: after := by
  fun_induction sexpBehind comments depth here after before with
  | case1 => rfl
  | case2 _ _ _ _ _ _ ih => simp [ih]
  | case3 _ _ _ _ _ _ ih => simp [ih]
  | case4 => simp [toList]
  | case5 _ _ _ _ _ _ _ ih => simp [ih]
  | case6 => simp [toList]
  | case7 _ _ _ _ _ _ _ ih => simp [ih]
  | case8 => simp [toList]
  | case9 _ _ _ _ _ _ _ ih => simp [ih]

theorem In.forwardSexp (h : c.In b) (comments : Bool) : (c.forwardSexp comments).cursor.In b := by
  simp only [Cursor.forwardSexp]
  split
  · exact h.forwardSpace comments
  · exact (toList_sexpAhead _ _ _ _ _).trans (h.forwardSpace comments)

theorem In.backwardSexp (h : c.In b) (comments : Bool) : (c.backwardSexp comments).cursor.In b := by
  simp only [Cursor.backwardSexp]
  split
  · exact h.backwardSpace comments
  · exact (toList_sexpBehind _ _ _ _ _).trans (h.backwardSpace comments)

theorem In.forwardSexps (h : c.In b) (comments : Bool) : (c.forwardSexps comments).In b := by
  fun_induction Cursor.forwardSexps comments c with
  | case1 c _ _ ih => exact ih (h.forwardSexp comments)
  | case2 c _ => exact h.forwardSexp comments

theorem In.backwardSexps (h : c.In b) (comments : Bool) : (c.backwardSexps comments).In b := by
  fun_induction Cursor.backwardSexps comments c with
  | case1 c _ _ ih => exact ih (h.backwardSexp comments)
  | case2 c _ => exact h.backwardSexp comments

theorem forwardList?_eq_some (h : c.forwardList? = some d) :
    d = c.forwardSexps true ∧ d.kind = .closing := by
  simp only [forwardList?] at h
  split at h
  · rename_i hk
    obtain rfl := Option.some.inj h
    exact ⟨rfl, hk⟩
  · simp at h

theorem backwardList?_eq_some (h : c.backwardList? = some d) :
    d = c.backwardSexps false ∧ d.prevKind = .opening := by
  simp only [backwardList?] at h
  split at h
  · rename_i hk
    obtain rfl := Option.some.inj h
    exact ⟨rfl, hk⟩
  · simp at h

theorem backwardUpList?_eq_some (h : c.backwardUpList? = some d) :
    d = (c.backwardSpace true).prev ∧ (c.backwardSpace true).prevKind = .opening := by
  simp only [backwardUpList?] at h
  split at h
  · rename_i hk
    exact ⟨(Option.some.inj h).symm, hk⟩
  · simp at h

theorem In.forwardList? (h : c.In b) (hd : c.forwardList? = some d) : d.In b :=
  (forwardList?_eq_some hd).1 ▸ h.forwardSexps true

theorem In.backwardList? (h : c.In b) (hd : c.backwardList? = some d) : d.In b :=
  (backwardList?_eq_some hd).1 ▸ h.backwardSexps false

theorem In.backwardUpList? (h : c.In b) (hd : c.backwardUpList? = some d) : d.In b :=
  (backwardUpList?_eq_some hd).1 ▸ (h.backwardSpace true).prev

/-! ## The order of places -/

theorem before_length_le_next (c : Cursor) : c.before.length ≤ c.next.before.length := by
  obtain ⟨before, here, after⟩ := c
  cases after <;> simp [Cursor.next, Cursor.next?]

theorem before_length_prev_le (c : Cursor) : c.prev.before.length ≤ c.before.length := by
  obtain ⟨before, here, after⟩ := c
  cases before <;> simp [Cursor.prev, Cursor.prev?]

theorem before_length_le_forwardSpace (comments : Bool) (c : Cursor) :
    c.before.length ≤ (c.forwardSpace comments).before.length := by
  obtain ⟨before, here, after⟩ := c
  simp only [Cursor.forwardSpace]
  induction after generalizing before here with
  | nil => exact Nat.le_refl _
  | cons n after ih =>
    simp only [spaceAhead]
    split
    · exact Nat.le_trans (Nat.le_succ _) (ih (here :: before) n)
    · exact Nat.le_refl _

theorem before_length_backwardSpace_le (comments : Bool) (c : Cursor) :
    (c.backwardSpace comments).before.length ≤ c.before.length :=
  before_spaceBehind_le comments c.here c.after c.before

theorem before_length_le_sexpAhead (comments : Bool) (depth : Nat) (before : List Placed)
    (here : Placed) (after : List Placed) :
    before.length ≤ (sexpAhead comments depth before here after).cursor.before.length := by
  fun_induction sexpAhead comments depth before here after with
  | case1 => exact Nat.le_refl _
  | case2 _ _ _ _ _ _ ih => exact Nat.le_of_succ_le ih
  | case3 _ _ _ _ _ _ ih => exact Nat.le_of_succ_le ih
  | case4 => exact Nat.le_succ _
  | case5 _ _ _ _ _ _ _ ih => exact Nat.le_of_succ_le ih
  | case6 => exact Nat.le_succ _
  | case7 _ _ _ _ _ _ _ ih => exact Nat.le_of_succ_le ih
  | case8 before here n after =>
    have := before_length_le_next ⟨here :: before, n, after⟩
    exact Nat.le_of_succ_le this
  | case9 _ _ _ _ _ _ _ ih => exact Nat.le_of_succ_le ih

theorem before_length_le_forwardSexp (comments : Bool) (c : Cursor) :
    c.before.length ≤ (c.forwardSexp comments).cursor.before.length := by
  simp only [Cursor.forwardSexp]
  split
  · exact before_length_le_forwardSpace comments c
  · exact Nat.le_trans (before_length_le_forwardSpace comments c)
      (before_length_le_sexpAhead _ _ _ _ _)

theorem before_length_le_forwardSexps (comments : Bool) (c : Cursor) :
    c.before.length ≤ (c.forwardSexps comments).before.length := by
  fun_induction Cursor.forwardSexps comments c with
  | case1 c _ _ ih => exact Nat.le_trans (before_length_le_forwardSexp comments c) ih
  | case2 c _ => exact before_length_le_forwardSexp comments c

theorem before_length_backwardSexps_le (comments : Bool) (c : Cursor) :
    (c.backwardSexps comments).before.length ≤ c.before.length := by
  fun_induction Cursor.backwardSexps comments c with
  | case1 c _ _ ih => exact Nat.le_trans ih (before_backwardSexp_le comments c)
  | case2 c _ => exact before_backwardSexp_le comments c

theorem before_length_le_forwardList? (h : c.forwardList? = some d) :
    c.before.length ≤ d.before.length :=
  (forwardList?_eq_some h).1 ▸ before_length_le_forwardSexps true c

theorem before_length_backwardList?_le (h : c.backwardList? = some d) :
    d.before.length ≤ c.before.length :=
  (backwardList?_eq_some h).1 ▸ before_length_backwardSexps_le false c

theorem before_length_backwardUpList?_le (h : c.backwardUpList? = some d) :
    d.before.length ≤ c.before.length :=
  Nat.le_of_lt (backwardUpList?_lt h)

/-! ## The cursor at an offset -/

theorem start_seek_le {offset : Nat} {before : List Placed} {here : Placed} {after : List Placed}
    (h : here.start ≤ offset) : (seek offset before here after).start ≤ offset := by
  induction after generalizing before here with
  | nil => exact h
  | cons n after ih =>
    simp only [seek]
    split
    · rename_i hn
      exact ih hn
    · exact h

/-! ## Tokens on the way -/

theorem In.mem_text (h : c.In b) (hk : c.kind ≠ .lineEnd) {x : Char} (hx : x ∈ c.raw) :
    x ∈ b.text := by
  obtain ⟨l, hl, hm⟩ := Buffer.mem_text_of_mem_raw h.here_mem hk hx
  exact Buffer.mem_text_of_mem_line hl hm

/-- In lines without breaks, only line ends read one. -/
theorem In.newline_not_mem_raw (h : c.In b) (hb : b.Unbroken) (hk : c.kind ≠ .lineEnd) :
    '\n' ∉ c.raw := by
  intro hm
  obtain ⟨l, hl, hn⟩ := Buffer.mem_text_of_mem_raw h.here_mem hk hm
  exact hb l hl hn

/-- The token before the cursor is the one under the cursor one step back. -/
theorem prev_of_prevKind (h : c.prevKind ≠ .lineEnd) :
    c.prev.here.token = c.prevToken ∧ c.prev.kind = c.prevKind := by
  obtain ⟨before, here, after⟩ := c
  cases before with
  | nil => exact absurd rfl h
  | cons p before => exact ⟨rfl, rfl⟩

theorem sexpBehind_found_role {comments : Bool} {depth : Nat} {here : Placed}
    {after before : List Placed}
    (h : (sexpBehind comments depth here after before).found = true) :
    (sexpBehind comments depth here after before).cursor.kind.roleBehind comments ≠ .pass := by
  fun_induction sexpBehind comments depth here after before with
  | case1 => simp at h
  | case2 _ _ _ _ _ _ ih => exact ih h
  | case3 _ _ _ _ _ _ ih => exact ih h
  | case4 _ _ _ _ _ hr => exact fun hp => by simp [kind, hr] at hp
  | case5 _ _ _ _ _ _ _ ih => exact ih h
  | case6 _ _ _ _ hr => exact fun hp => by simp [kind, hr] at hp
  | case7 _ _ _ _ _ _ _ ih => exact ih h
  | case8 _ _ _ _ hr => exact fun hp => by simp [kind, hr] at hp
  | case9 _ _ _ _ _ _ _ ih => exact ih h

theorem not_isSkipped_of_roleBehind {comments : Bool} {k : Kind}
    (h : k.roleBehind comments ≠ .pass) : k.isSkipped false = false := by
  cases k <;> simp_all [Kind.roleBehind, Kind.isSkipped]

/-- An expression found on the way back starts on no blank. -/
theorem backwardSexp_found_not_skipped {comments : Bool}
    (h : (c.backwardSexp comments).found = true) :
    (c.backwardSexp comments).cursor.kind.isSkipped false = false := by
  simp only [backwardSexp] at h ⊢
  split at h
  · simp at h
  · rename_i hk
    simp only [hk, ↓reduceIte]
    exact not_isSkipped_of_roleBehind (sexpBehind_found_role h)

theorem forwardSpace_of_not_skipped {comments : Bool} (h : c.kind.isSkipped comments = false) :
    c.forwardSpace comments = c := by
  obtain ⟨before, here, after⟩ := c
  cases after with
  | nil => rfl
  | cons n after =>
    simp only [forwardSpace, spaceAhead]
    rw [if_neg]
    exact fun hs => by simp [kind, hs] at h

end Cursor

namespace Buffer

theorem in_firstCursor (b : Buffer) : b.firstCursor.In b := by
  unfold firstCursor
  split
  · rename_i h
    exact absurd h b.placed_ne_nil
  · rename_i p ps h
    rw [Cursor.In, h]
    rfl

theorem in_cursorAt (b : Buffer) (offset : Nat) : (b.cursorAt offset).In b :=
  (Cursor.toList_seek _ _ _ _).trans b.in_firstCursor

theorem before_firstCursor (b : Buffer) : b.firstCursor.before = [] := by
  unfold firstCursor
  split
  · rename_i h
    exact absurd h b.placed_ne_nil
  · rfl

theorem cons_firstCursor (b : Buffer) : b.firstCursor.here :: b.firstCursor.after = b.placed := by
  rw [← b.in_firstCursor, Cursor.toList, b.before_firstCursor]
  rfl

theorem start_firstCursor (b : Buffer) : b.firstCursor.start = 0 := by
  rw [b.in_firstCursor.abut.1, before_firstCursor]
  rfl

theorem start_cursorAt_le (b : Buffer) (offset : Nat) : (b.cursorAt offset).start ≤ offset := by
  have h : b.firstCursor.here.start = 0 := b.start_firstCursor
  exact Cursor.start_seek_le (h ▸ Nat.zero_le offset)

end Buffer
end StructEdit
