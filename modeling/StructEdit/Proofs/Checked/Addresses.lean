import StructEdit.Proofs.Balance.Lists
import StructEdit.Proofs.Checked.Buffer

/-!
# Checked cursors

A cursor with look-ups is an address: the number of a row and of a token in it. It reads its token
by looking up both numbers, and it steps by counting, with the last token of a row and the last
row found as differences.

A cursor of the library holds the tokens on both sides instead. `Seated` says where such a cursor
stands among the rows of its buffer, and from there each look-up is seen to have a value.
-/
namespace StructEdit

structure Address where
  row : Nat
  index : Nat
  deriving DecidableEq

def Cursor.address (c : Cursor) : Address := ⟨c.here.row, c.here.index⟩

namespace Checked

def tokens (b : Buffer) (row : Nat) : Option (List Token) := do
  let l ← b.lines[row]?
  return l.tokens

def token (b : Buffer) (a : Address) : Option Token := do
  let ts ← tokens b a.row
  ts[a.index]?

def atStart (a : Address) : Bool := a.row == 0 && a.index == 0

def atEnd (b : Buffer) (a : Address) : Option Bool := do
  let lastRow ← sub b.lineCount 1
  if a.row = lastRow then
    let ts ← tokens b a.row
    let last ← sub ts.length 1
    return a.index == last
  else return false

/-- One token on; at the end the address stays. -/
def next (b : Buffer) (a : Address) : Option Address := do
  let ts ← tokens b a.row
  if a.index + 1 < ts.length then return ⟨a.row, a.index + 1⟩
  else if a.row + 1 < b.lineCount then return ⟨a.row + 1, 0⟩
  else return a

/-- One token back; at the start the address stays. -/
def prev (b : Buffer) (a : Address) : Option Address :=
  if 0 < a.index then do
    let index ← sub a.index 1
    return ⟨a.row, index⟩
  else if 0 < a.row then do
    let row ← sub a.row 1
    let ts ← tokens b row
    let index ← sub ts.length 1
    return ⟨row, index⟩
  else return a

def prevToken (b : Buffer) (a : Address) : Option Token :=
  if atStart a then some (.lineEnd 0 .code)
  else do
    let p ← prev b a
    token b p

/-- The offset of the first character of the token. -/
def start (b : Buffer) (a : Address) : Option Nat := do
  let t ← token b a
  return b.rowOffset a.row + t.offset

/-- The offset after the token, inside the buffer. -/
def stop (b : Buffer) (a : Address) : Option Nat := do
  let n ← start b a
  let t ← token b a
  let limit ← maxOffset b
  return min (n + t.length) limit

/-- The number of the last element that passes a test. -/
def lastIndex? {α : Type} (test : α → Bool) : List α → Option Nat
  | [] => none
  | x :: xs =>
    match lastIndex? test xs with
    | some i => some (i + 1)
    | none => if test x then some 0 else none

/-- The token at an offset: in its row, the last one that starts at or before its column. -/
def cursorAt (b : Buffer) (offset : Nat) : Option Address := do
  let p ← position b offset
  let ts ← tokens b p.row
  return ⟨p.row, (lastIndex? (fun t : Token => t.offset ≤ p.column) ts).getD 0⟩

end Checked

/-! ## Where a cursor stands -/

theorem placeTokens_append (row start index : Nat) (ts us : List Token) :
    placeTokens row start index (ts ++ us) =
      placeTokens row start index ts ++ placeTokens row start (index + ts.length) us := by
  induction ts generalizing index with
  | nil => rfl
  | cons t ts ih =>
    simp only [List.cons_append, placeTokens, ih, List.length_cons]
    rw [show index + (ts.length + 1) = index + 1 + ts.length by omega]

theorem placeLines_append (row start : Nat) (ls ms : List Line) :
    placeLines row start (ls ++ ms) =
      placeLines row start ls ++ placeLines (row + ls.length) (start + extent ls) ms := by
  induction ls generalizing row start with
  | nil => rfl
  | cons l ls ih =>
    simp only [List.cons_append, placeLines, ih, List.length_cons, extent, List.append_assoc]
    rw [show row + (ls.length + 1) = row + 1 + ls.length by omega,
      show start + (l.length + 1 + extent ls) = start + (l.length + 1) + extent ls by omega]

/-- Cutting the tokens of a row at one of them. -/
theorem placeTokens_eq_append {row start index : Nat} {ts : List Token} {ps qs : List Placed}
    {p : Placed} (h : placeTokens row start index ts = ps ++ p :: qs) :
    ∃ left right, ts = left ++ p.token :: right ∧ ps = placeTokens row start index left ∧
      p = ⟨row, index + left.length, start + p.token.offset, p.token⟩ ∧
      qs = placeTokens row start (index + left.length + 1) right := by
  induction ps generalizing index ts with
  | nil =>
    cases ts with
    | nil => simp [placeTokens] at h
    | cons t ts =>
      obtain ⟨rfl, rfl⟩ := List.cons.inj h
      exact ⟨[], ts, rfl, rfl, rfl, rfl⟩
  | cons o ps ih =>
    cases ts with
    | nil => simp [placeTokens] at h
    | cons t ts =>
      obtain ⟨rfl, hrest⟩ := List.cons.inj h
      obtain ⟨left, right, rfl, rfl, hp, hqs⟩ := ih hrest
      have hindex : index + 1 + left.length = index + (t :: left).length := by
        simp only [List.length_cons]
        omega
      rw [hindex] at hp hqs
      exact ⟨t :: left, right, rfl, rfl, hp, hqs⟩

/-- A cursor stands in the row `l` between the tokens `left` and `right`, with `above` and `below` the
other rows. -/
structure Seated (b : Buffer) (c : Cursor) (above : List Line) (l : Line) (below : List Line)
    (left right : List Token) : Prop where
  lines : b.lines = above ++ l :: below
  tokens : l.tokens = left ++ c.here.token :: right
  here : c.here = ⟨above.length, left.length, extent above + c.here.token.offset, c.here.token⟩
  before : c.before.reverse =
    placeLines 0 0 above ++ placeTokens above.length (extent above) 0 left
  after : c.after = placeTokens above.length (extent above) (left.length + 1) right ++
    placeLines (above.length + 1) (extent above + (l.length + 1)) below

theorem placeLines_eq_append {row start : Nat} {ls : List Line} {ps qs : List Placed} {p : Placed}
    (h : placeLines row start ls = ps ++ p :: qs) :
    ∃ above l below left right, ls = above ++ l :: below ∧ l.tokens = left ++ p.token :: right ∧
      p = ⟨row + above.length, left.length, start + extent above + p.token.offset, p.token⟩ ∧
      ps = placeLines row start above ++
        placeTokens (row + above.length) (start + extent above) 0 left ∧
      qs = placeTokens (row + above.length) (start + extent above) (left.length + 1) right ++
        placeLines (row + above.length + 1) (start + extent above + (l.length + 1)) below := by
  induction ls generalizing row start ps with
  | nil => simp [placeLines] at h
  | cons l ls ih =>
    have hcut : (∃ rest, placeTokens row start 0 l.tokens = ps ++ p :: rest ∧
        qs = rest ++ placeLines (row + 1) (start + (l.length + 1)) ls) ∨
        ∃ rest, ps = placeTokens row start 0 l.tokens ++ rest ∧
          placeLines (row + 1) (start + (l.length + 1)) ls = rest ++ p :: qs := by
      rcases List.append_eq_append_iff.1 h with ⟨rest, hps, hrest⟩ | ⟨rest, hrow, hrest⟩
      · exact Or.inr ⟨rest, hps, hrest⟩
      · cases rest with
        | nil => exact Or.inr ⟨[], by simpa using hrow.symm, hrest.symm⟩
        | cons q rest =>
          obtain ⟨rfl, rfl⟩ := List.cons.inj hrest
          exact Or.inl ⟨rest, hrow, rfl⟩
    rcases hcut with ⟨rest, hrow, rfl⟩ | ⟨rest, rfl, hrest⟩
    · obtain ⟨left, right, htokens, rfl, hp, rfl⟩ := placeTokens_eq_append hrow
      rw [Nat.zero_add] at hp ⊢
      exact ⟨[], l, ls, left, right, rfl, htokens, hp, rfl, rfl⟩
    · obtain ⟨above, m, below, left, right, rfl, htokens, hp, rfl, rfl⟩ := ih hrest
      have hrow : row + 1 + above.length = row + (l :: above).length := by
        simp only [List.length_cons]
        omega
      have hstart : start + (l.length + 1) + extent above = start + extent (l :: above) := by
        simp only [extent]
        omega
      rw [hrow, hstart] at hp ⊢
      refine ⟨l :: above, m, below, left, right, rfl, htokens, hp, ?_, rfl⟩
      rw [placeLines, List.append_assoc]

theorem Cursor.In.seated {b : Buffer} {c : Cursor} (h : c.In b) :
    ∃ above l below left right, Seated b c above l below left right := by
  have hplaced : placeLines 0 0 b.lines = c.before.reverse ++ c.here :: c.after := h.symm
  obtain ⟨above, l, below, left, right, hlines, htokens, hhere, hbefore, hafter⟩ :=
    placeLines_eq_append hplaced
  simp only [Nat.zero_add] at hhere hbefore hafter
  exact ⟨above, l, below, left, right, hlines, htokens, hhere, hbefore, hafter⟩

namespace Checked

variable {b : Buffer} {c : Cursor} {above : List Line} {l : Line} {below : List Line}
  {left right : List Token}

theorem address_eq (h : Seated b c above l below left right) :
    c.address = ⟨above.length, left.length⟩ := by
  rw [Cursor.address, h.here]

theorem tokens_of_row {row : Nat} (h : b.lines[row]? = some l) : tokens b row = some l.tokens := by
  rw [tokens, h]
  rfl

theorem lookup_row (h : Seated b c above l below left right) :
    b.lines[above.length]? = some l := by
  simp [h.lines]

theorem token_eq (h : c.In b) : token b c.address = some c.here.token := by
  obtain ⟨above, l, below, left, right, hs⟩ := h.seated
  rw [address_eq hs, token, tokens_of_row (lookup_row hs), hs.tokens]
  simp

theorem start_eq (h : c.In b) : start b c.address = some c.start := by
  have htoken := token_eq h
  obtain ⟨above, l, below, left, right, hs⟩ := h.seated
  have hstart : c.start = extent above + c.here.token.offset := by
    rw [Cursor.start, hs.here]
  have hrow : b.rowOffset c.address.row = extent above := by
    rw [address_eq hs, Buffer.rowOffset, hs.lines, List.take_left]
  rw [start, htoken, hrow, hstart]
  rfl

/-! ## Steps -/

theorem atStart_eq (h : c.In b) : atStart c.address = c.atStart := by
  obtain ⟨above, l, below, left, right, hs⟩ := h.seated
  have hbefore : c.before = [] ↔ above = [] ∧ left = [] := by
    rw [← List.reverse_eq_nil_iff, hs.before, List.append_eq_nil_iff]
    cases above <;> cases left <;>
      simp [placeLines, placeTokens, placeTokens_ne_nil, Line.tokens_ne_nil]
  rw [address_eq hs, Cursor.atStart, Bool.eq_iff_iff]
  simp [atStart, hbefore]

theorem atEnd_eq (h : c.In b) : atEnd b c.address = some c.atEnd := by
  obtain ⟨above, l, below, left, right, hs⟩ := h.seated
  have hafter : c.after = [] ↔ right = [] ∧ below = [] := by
    rw [hs.after, List.append_eq_nil_iff]
    cases below <;> cases right <;>
      simp [placeLines, placeTokens, placeTokens_ne_nil, Line.tokens_ne_nil]
  have hcount : b.lineCount = above.length + below.length + 1 := by
    simp [Buffer.lineCount, hs.lines, Nat.add_assoc]
  have htokens : l.tokens.length = left.length + right.length + 1 := by
    simp [hs.tokens, Nat.add_assoc]
  rw [address_eq hs, atEnd, hcount, sub_of_le (Nat.le_add_left 1 _), tokens_of_row (lookup_row hs)]
  simp only [Option.bind_eq_bind, Option.bind_some, htokens, sub_of_le (Nat.le_add_left 1 _),
    Nat.add_sub_cancel, Cursor.atEnd]
  split
  · rename_i hrow
    have hbelow : below = [] := List.length_eq_zero_iff.1 (by omega)
    rw [Option.pure_def, Option.some.injEq, Bool.eq_iff_iff]
    simp [hafter, hbelow]
  · rename_i hrow
    have hbelow : below ≠ [] := by
      rintro rfl
      exact hrow rfl
    rw [Option.pure_def, Option.some.injEq, Bool.eq_iff_iff]
    simp [hafter, hbelow]

theorem next_eq (h : c.In b) : next b c.address = some c.next.address := by
  obtain ⟨above, l, below, left, right, hs⟩ := h.seated
  have hcount : b.lineCount = above.length + below.length + 1 := by
    simp [Buffer.lineCount, hs.lines, Nat.add_assoc]
  have htokens : l.tokens.length = left.length + right.length + 1 := by
    simp [hs.tokens, Nat.add_assoc]
  have hnext : ∀ n after, c.after = n :: after → c.next.address = ⟨n.row, n.index⟩ := by
    intro n after hn
    simp [Cursor.next, Cursor.next?, hn, Cursor.address]
  have hafter := hs.after
  rw [address_eq hs, next, tokens_of_row (lookup_row hs)]
  simp only [Option.bind_eq_bind, Option.bind_some, htokens, hcount]
  cases right with
  | cons t right =>
    rw [if_pos (by simp), hnext _ _ hafter]
    rfl
  | nil =>
    rw [if_neg (by simp)]
    cases below with
    | nil =>
      have hlast : c.next = c := by
        simp [Cursor.next, Cursor.next?, hafter, placeTokens, placeLines]
      rw [if_neg (by simp), hlast, address_eq hs]
      rfl
    | cons m below =>
      obtain ⟨t, ts, hm⟩ := List.exists_cons_of_ne_nil m.tokens_ne_nil
      simp only [placeTokens, placeLines, hm, List.nil_append, List.cons_append] at hafter
      rw [if_pos (by simp), hnext _ _ hafter]
      rfl

theorem prev_eq (h : c.In b) : prev b c.address = some c.prev.address := by
  obtain ⟨above, l, below, left, right, hs⟩ := h.seated
  have hprev : ∀ p before, c.before.reverse = before ++ [p] →
      c.prev.address = ⟨p.row, p.index⟩ := by
    intro p before hp
    have hbefore : c.before = p :: before.reverse := by
      rw [← List.reverse_inj, hp]
      simp
    simp [Cursor.prev, Cursor.prev?, hbefore, Cursor.address]
  have hbefore := hs.before
  rw [address_eq hs, prev]
  rcases List.eq_nil_or_concat left with rfl | ⟨init, t, rfl⟩
  · rcases List.eq_nil_or_concat above with rfl | ⟨up, m, rfl⟩
    · have hfirst : c.prev = c := by
        have hnil : c.before = [] := List.reverse_eq_nil_iff.1 hbefore
        simp [Cursor.prev, Cursor.prev?, hnil]
      rw [hfirst, address_eq hs]
      rfl
    · obtain ⟨ts, t, hm⟩ := (List.eq_nil_or_concat m.tokens).resolve_left m.tokens_ne_nil
      have hrow : b.lines[up.length]? = some m := by simp [hs.lines]
      simp only [placeLines_append, placeLines, hm, placeTokens_append, placeTokens,
        List.append_nil, List.concat_eq_append, ← List.append_assoc] at hbefore
      rw [hprev _ _ hbefore]
      simp [tokens_of_row hrow, hm, sub]
  · simp only [List.concat_eq_append, placeTokens_append, placeTokens,
      ← List.append_assoc] at hbefore
    rw [hprev _ _ hbefore]
    simp [sub]

theorem prevToken_eq (h : c.In b) : prevToken b c.address = some c.prevToken := by
  rw [prevToken, atStart_eq h, prev_eq h]
  simp only [Option.bind_eq_bind, Option.bind_some, token_eq h.prev]
  obtain ⟨before, here, after⟩ := c
  cases before <;> rfl

/-! ## Offsets -/

end Checked

/-- No token starts behind the end of its line. -/
theorem Scanned.offset_le {mode last : Mode} {column : Nat} {s : Text} {ts : List Token}
    (h : Scanned mode column s ts last) : ∀ t ∈ ts, t.offset ≤ column + s.length := by
  induction h with
  | nil => simp [Token.lineEnd]
  | cons _ _ _ ih =>
    intro t ht
    rw [List.length_append, ← Nat.add_assoc]
    rcases List.mem_cons.1 ht with rfl | ht
    · exact Nat.le_trans (Nat.le_add_right _ _) (Nat.le_add_right _ _)
    · exact ih t ht

theorem Abut.le_start {n : Nat} {ps : List Placed} (h : Abut n ps) : ∀ p ∈ ps, n ≤ p.start := by
  induction ps generalizing n with
  | nil => simp
  | cons q ps ih =>
    intro p hp
    rcases List.mem_cons.1 hp with rfl | hp
    · exact Nat.le_of_eq h.1.symm
    · have := ih h.2 p hp
      have := h.1
      rw [Placed.stop] at *
      omega

theorem start_mem_placeTokens (row start index : Nat) {ts : List Token} {t : Token} (h : t ∈ ts) :
    ∃ p ∈ placeTokens row start index ts, p.start = start + t.offset := by
  induction ts generalizing index with
  | nil => simp at h
  | cons u ts ih =>
    rcases List.mem_cons.1 h with rfl | h
    · exact ⟨_, List.mem_cons_self, rfl⟩
    · obtain ⟨p, hp, hstart⟩ := ih (index + 1) h
      exact ⟨p, List.mem_cons_of_mem _ hp, hstart⟩

namespace Checked

variable {b : Buffer} {c : Cursor}

theorem stop_eq (h : c.In b) : stop b c.address = some c.stop := by
  have hle := h.stop_le
  have hmin : min (c.start + c.here.token.length) b.maxOffset = c.stop := by
    unfold Cursor.stop at hle ⊢
    split
    · rename_i hnil
      have hlast : c.raw = ['\n'] := h.raw_of_after_nil (List.isEmpty_iff.1 hnil)
      have hlen := congrArg List.length h.rawText
      rw [List.isEmpty_iff.1 hnil, hlast] at hlen
      simp only [rawText_nil, List.length_append, List.length_singleton, List.length_nil,
        b.length_text] at hlen
      have hstart : c.start = b.maxOffset := by
        rw [h.abut.1]
        omega
      exact (Nat.min_eq_right (by omega)).trans hstart.symm
    · rename_i hne
      rw [if_neg hne] at hle
      exact Nat.min_eq_left hle
  simp only [stop, start_eq h, token_eq h, maxOffset_eq, Option.bind_eq_bind, Option.bind_some,
    hmin]
  rfl

theorem lastIndex?_append {α : Type} {test : α → Bool} {xs ys : List α} {x : α} (hx : test x = true)
    (hys : ∀ y ∈ ys, test y = false) : lastIndex? test (xs ++ x :: ys) = some xs.length := by
  have hnone : lastIndex? test ys = none := by
    clear hx
    induction ys with
    | nil => rfl
    | cons y ys ih =>
      rw [lastIndex?, ih fun z hz => hys z (List.mem_cons_of_mem y hz), hys y List.mem_cons_self]
      rfl
  induction xs with
  | nil => rw [List.nil_append, lastIndex?, hnone, hx]; rfl
  | cons z xs ih => rw [List.cons_append, lastIndex?, ih]; rfl

/-- The tokens behind the cursor at an offset start behind the offset. -/
theorem lt_start_after_cursorAt (b : Buffer) (offset : Nat) :
    ∀ p ∈ (b.cursorAt offset).after, offset < p.start := by
  have habut := (b.in_cursorAt offset).abut.2
  have hstops : (b.cursorAt offset).after = [] ∨
      ∃ n rest, (b.cursorAt offset).after = n :: rest ∧ offset < n.start :=
    Cursor.seek_stops offset _ _ _
  intro p hp
  rcases hstops with hnil | ⟨n, rest, hcons, hlt⟩
  · simp [hnil] at hp
  · rw [hcons] at hp habut
    rcases List.mem_cons.1 hp with rfl | hp
    · exact hlt
    · have := habut.2.le_start p hp
      rw [Placed.stop] at this
      omega

/-- An offset before the tokens of the rows below is in the row, or there is no row below. -/
theorem le_of_lt_start {above below : List Line} {l : Line} {left right : List Token} {offset : Nat}
    (hs : Seated b c above l below left right) (hlater : ∀ p ∈ c.after, offset < p.start) :
    offset ≤ extent above + l.length ∨ below = [] := by
  cases below with
  | nil => exact Or.inr rfl
  | cons m below =>
    have habut := abut_placeLines (above.length + 1) (extent above + (l.length + 1)) (m :: below)
    have hne :
        placeLines (above.length + 1) (extent above + (l.length + 1)) (m :: below) ≠ [] := by
      simp [placeLines, placeTokens_ne_nil, m.tokens_ne_nil]
    obtain ⟨p, ps, hps⟩ := List.exists_cons_of_ne_nil hne
    rw [hps] at habut
    have hlt := hlater p (hs.after ▸ List.mem_append_right _ (hps ▸ List.mem_cons_self))
    rw [habut.1] at hlt
    exact Or.inl (by omega)

@[simp] theorem cursorAt_eq (b : Buffer) (offset : Nat) :
    cursorAt b offset = some (b.cursorAt offset).address := by
  have hin := b.in_cursorAt offset
  have hstart : (b.cursorAt offset).start ≤ offset := b.start_cursorAt_le offset
  have hlater := lt_start_after_cursorAt b offset
  generalize b.cursorAt offset = c at hin hstart hlater ⊢
  obtain ⟨above, l, below, left, right, hs⟩ := hin.seated
  have hhere : c.start = extent above + c.here.token.offset := by
    rw [Cursor.start, hs.here]
  have hright : ∀ t ∈ right, offset < extent above + t.offset := by
    intro t ht
    obtain ⟨p, hp, hpt⟩ := start_mem_placeTokens above.length (extent above) (left.length + 1) ht
    rw [← hpt]
    exact hlater p (hs.after ▸ List.mem_append_left _ hp)
  have hoffset : c.here.token.offset ≤ l.length := by
    have := l.scannedTokens.offset_le c.here.token (by simp [hs.tokens])
    rwa [Nat.zero_add] at this
  have hposition : b.position offset = ⟨above.length, min (offset - extent above) l.length⟩ := by
    rw [Buffer.position, hs.lines, locate_append (by omega) (le_of_lt_start hs hlater)]
  rw [cursorAt, position_eq]
  simp only [Option.bind_eq_bind, Option.bind_some, hposition, tokens_of_row (lookup_row hs)]
  rw [hs.tokens, lastIndex?_append, address_eq hs]
  · rfl
  · rw [decide_eq_true_eq]
    omega
  · intro t ht
    have := hright t ht
    rw [decide_eq_false_iff_not]
    omega

end Checked
end StructEdit
