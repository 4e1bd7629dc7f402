import StructEdit.Proofs.Checked.Addresses
import StructEdit.Proofs.Cursor.Counting

/-!
# The walk over a buffer

From the first token, step by step, a cursor comes to every token of every row, to each of them
once, and what it reads on the way is the text and a last line break. A step on and a step back undo
each other.

The tokens are known in three ways: by the place in the walk, by the numbers of the row and of the
token in it, and by the offsets that they cover. `mem_placed_iff` leads from the first to the second.
The third decides which token an offset belongs to: tokens abut and none is empty, so that a cursor
is known by where it starts.
-/
namespace StructEdit

/-! ## Tokens by row and index -/

theorem getElem?_placeTokens (row start index : Nat) (ts : List Token) (k : Nat) :
    (placeTokens row start index ts)[k]? =
      ts[k]?.map fun t => ⟨row, index + k, start + t.offset, t⟩ := by
  induction ts generalizing index k with
  | nil => rfl
  | cons t ts ih =>
    cases k with
    | zero => rfl
    | succ k =>
      rw [placeTokens, List.getElem?_cons_succ, List.getElem?_cons_succ, ih]
      simp only [Nat.add_assoc, Nat.add_comm 1 k]

theorem mem_placeLines_iff {row start : Nat} {ls : List Line} {p : Placed} :
    p ∈ placeLines row start ls ↔ ∃ j l k t, ls[j]? = some l ∧ l.tokens[k]? = some t ∧
      p = ⟨row + j, k, start + extent (ls.take j) + t.offset, t⟩ := by
  induction ls generalizing row start with
  | nil => simp [placeLines]
  | cons l ls ih =>
    have hhead : p ∈ placeTokens row start 0 l.tokens ↔
        ∃ k t, l.tokens[k]? = some t ∧ p = ⟨row, k, start + t.offset, t⟩ := by
      simp only [List.mem_iff_getElem?, getElem?_placeTokens, Option.map_eq_some_iff, Nat.zero_add,
        eq_comm (a := p)]
    rw [placeLines, List.mem_append, hhead, ih]
    constructor
    · rintro (⟨k, t, ht, rfl⟩ | ⟨j, m, k, t, hm, ht, rfl⟩)
      · exact ⟨0, l, k, t, rfl, ht, by simp [extent]⟩
      · exact ⟨j + 1, m, k, t, hm, ht, by simp [extent, Nat.add_assoc, Nat.add_comm 1 j]⟩
    · rintro ⟨j, m, k, t, hm, ht, rfl⟩
      cases j with
      | zero =>
        obtain rfl : l = m := by simpa using hm
        exact Or.inl ⟨k, t, ht, by simp [extent]⟩
      | succ j =>
        exact Or.inr ⟨j, m, k, t, by simpa using hm, ht,
          by simp [extent, Nat.add_assoc, Nat.add_comm 1 j]⟩

namespace Buffer

/-- The tokens of the buffer are those that a row number and a number in the row find. -/
theorem mem_placed_iff {b : Buffer} {p : Placed} :
    p ∈ b.placed ↔ Checked.token b ⟨p.row, p.index⟩ = some p.token ∧
      p.start = b.rowOffset p.row + p.token.offset := by
  have hlookup : Checked.token b ⟨p.row, p.index⟩ = some p.token ↔
      ∃ l, b.lines[p.row]? = some l ∧ l.tokens[p.index]? = some p.token := by
    rw [Checked.token, Checked.tokens]
    cases b.lines[p.row]? <;> simp
  rw [hlookup, placed, mem_placeLines_iff]
  obtain ⟨row, index, start, token⟩ := p
  constructor
  · rintro ⟨j, l, k, t, hl, ht, hp⟩
    obtain ⟨rfl, rfl, rfl, rfl⟩ := Placed.mk.inj hp
    rw [Nat.zero_add] at *
    exact ⟨⟨l, hl, ht⟩, by rw [Nat.zero_add, rowOffset]⟩
  · rintro ⟨⟨l, hl, ht⟩, hstart⟩
    refine ⟨row, l, index, token, hl, ht, ?_⟩
    simp only [Nat.zero_add]
    rw [show start = _ from hstart]
    rfl

end Buffer

/-- Tokens that abut and are not empty start one behind the other. -/
theorem Abut.pairwise_start {n : Nat} {ps : List Placed} (h : Abut n ps)
    (hne : ∀ p ∈ ps, p.token.raw ≠ []) : ps.Pairwise fun p q => p.start < q.start := by
  induction ps generalizing n with
  | nil => exact List.Pairwise.nil
  | cons p ps ih =>
    refine List.Pairwise.cons (fun q hq => ?_)
      (ih h.2 fun q hq => hne q (List.mem_cons_of_mem p hq))
    have hstop : p.stop ≤ q.start := h.2.le_start q hq
    have hpos := List.length_pos_iff.2 (hne p List.mem_cons_self)
    rw [Placed.stop, Token.length] at hstop
    omega

/-- No two tokens of the buffer have the same row and index. -/
theorem Buffer.nodup_addresses (b : Buffer) :
    (b.placed.map fun p => (⟨p.row, p.index⟩ : Address)).Nodup := by
  have hstarts := b.abut_placed.pairwise_start fun p hp => raw_ne_nil_of_mem_placed hp
  rw [List.Nodup, List.pairwise_map]
  refine hstarts.imp_of_mem ?_
  intro p q hp hq hlt heq
  obtain ⟨hptoken, hpstart⟩ := mem_placed_iff.1 hp
  obtain ⟨hqtoken, hqstart⟩ := mem_placed_iff.1 hq
  obtain ⟨hrow, hindex⟩ := Address.mk.inj heq
  rw [hrow, hindex, hqtoken] at hptoken
  rw [hpstart, hqstart, hrow, Option.some.inj hptoken] at hlt
  exact Nat.lt_irrefl _ hlt

/-! ## Steps -/

namespace Cursor

variable {b : Buffer} {c d : Cursor}

theorem prev?_of_next? (h : c.next? = some d) : d.prev? = some c := by
  obtain ⟨before, here, after⟩ := c
  cases after with
  | nil => simp [next?] at h
  | cons n after =>
    obtain rfl := Option.some.inj h
    rfl

theorem next?_of_prev? (h : c.prev? = some d) : d.next? = some c := by
  obtain ⟨before, here, after⟩ := c
  cases before with
  | nil => simp [prev?] at h
  | cons p before =>
    obtain rfl := Option.some.inj h
    rfl

theorem length_after_next? (h : c.next? = some d) : d.after.length < c.after.length := by
  obtain ⟨before, here, after⟩ := c
  cases after with
  | nil => simp [next?] at h
  | cons n after =>
    obtain rfl := Option.some.inj h
    exact Nat.lt_succ_self _

/-- A step on leads over the token. -/
theorem In.start_next? (h : c.In b) (hd : c.next? = some d) :
    d.start = c.start + c.here.token.length := by
  obtain ⟨before, here, after⟩ := c
  cases after with
  | nil => simp [Cursor.next?] at hd
  | cons n after =>
    obtain rfl := Option.some.inj hd
    exact h.abut.2.1

theorem In.start_eq (h : c.In b) : c.start = b.rowOffset c.here.row + c.here.token.offset :=
  (Buffer.mem_placed_iff.1 h.here_mem).2

/-! ## The walk -/

/-- The cursors from `c` on, each one step behind the one before it. -/
def walk (c : Cursor) : List Cursor :=
  match h : c.next? with
  | none => [c]
  | some d =>
    have := length_after_next? h
    c :: d.walk
termination_by c.after.length

theorem map_here_walk (c : Cursor) : c.walk.map here = c.here :: c.after := by
  fun_induction walk c with
  | case1 c h =>
    obtain ⟨before, here, after⟩ := c
    cases after with
    | nil => rfl
    | cons n after => simp [next?] at h
  | case2 c d h _ ih =>
    obtain ⟨before, here, after⟩ := c
    cases after with
    | nil => simp [next?] at h
    | cons n after =>
      obtain rfl := Option.some.inj h
      rw [List.map_cons, ih]

theorem In.of_mem_walk (h : c.In b) : ∀ d ∈ c.walk, d.In b := by
  fun_induction walk c with
  | case1 c _ =>
    intro d hd
    rwa [List.mem_singleton.1 hd]
  | case2 c n hn _ ih =>
    intro d hd
    rcases List.mem_cons.1 hd with rfl | hd
    · exact h
    · exact ih (h.next? hn) d hd

/-- The walk ends on a cursor that cannot step on. -/
theorem exists_getLast_walk (c : Cursor) : ∃ d, c.walk.getLast? = some d ∧ d.next? = none := by
  fun_induction walk c with
  | case1 c h => exact ⟨c, rfl, h⟩
  | case2 c n _ _ ih =>
    obtain ⟨d, hd, hnone⟩ := ih
    refine ⟨d, ?_, hnone⟩
    rw [List.getLast?_cons, hd]
    rfl

end Cursor

namespace Buffer

variable {b : Buffer} {c : Cursor}

theorem map_here_walk_firstCursor (b : Buffer) : b.firstCursor.walk.map Cursor.here = b.placed := by
  rw [Cursor.map_here_walk, ← b.in_firstCursor, Cursor.toList, b.before_firstCursor]
  rfl

/-- The walk from the first token comes to all cursors of the buffer. -/
theorem mem_walk_firstCursor : c ∈ b.firstCursor.walk ↔ c.In b := by
  constructor
  · exact b.in_firstCursor.of_mem_walk c
  · intro hc
    have hhere := hc.here_mem
    rw [← map_here_walk_firstCursor] at hhere
    obtain ⟨d, hd, heq⟩ := List.mem_map.1 hhere
    have hstart : d.start = c.start := congrArg Placed.start heq
    rwa [← (b.in_firstCursor.of_mem_walk d hd).eq_of_start hc hstart]

/-- An offset of the buffer belongs to one token. -/
theorem eq_cursorAt_iff (hc : c.In b) {offset : Nat} (h : offset ≤ b.maxOffset) :
    c.start ≤ offset ∧ offset < c.start + c.here.token.length ↔ c = b.cursorAt offset := by
  constructor
  · rintro ⟨hlow, hhigh⟩
    exact (hc.cursorAt_eq_of_lt hlow hhigh).symm
  · rintro rfl
    exact ⟨b.start_cursorAt_le offset, lt_cursorAt h⟩

theorem start_le_of_mem_placed {p : Placed} (h : p ∈ b.placed) : p.start ≤ b.maxOffset := by
  rw [← map_here_walk_firstCursor] at h
  obtain ⟨d, hd, rfl⟩ := List.mem_map.1 h
  exact (mem_walk_firstCursor.1 hd).start_le

theorem after_cursorAt {offset : Nat} (h : b.maxOffset < offset) :
    (b.cursorAt offset).after = [] := by
  rw [List.eq_nil_iff_forall_not_mem]
  intro p hp
  have hlt := Checked.lt_start_after_cursorAt b offset p hp
  have hmem : p ∈ b.placed := by
    rw [← b.in_cursorAt offset, Cursor.toList]
    exact List.mem_append_right _ (List.mem_cons_of_mem _ hp)
  have hle := start_le_of_mem_placed hmem
  omega

/-- Behind the end of the buffer the cursor stands where the walk ends. -/
theorem getLast_walk_firstCursor {offset : Nat} (h : b.maxOffset < offset) :
    b.firstCursor.walk.getLast? = some (b.cursorAt offset) := by
  obtain ⟨d, hlast, hnone⟩ := b.firstCursor.exists_getLast_walk
  have hd : d.In b := mem_walk_firstCursor.1 (List.mem_of_getLast? hlast)
  have hafter : d.after = [] := by
    cases hafter : d.after with
    | nil => rfl
    | cons n after => simp [Cursor.next?, hafter] at hnone
  have hin := b.in_cursorAt offset
  have hstart : d.start = (b.cursorAt offset).start := by
    rw [hd.start_of_after_nil hafter, hin.start_of_after_nil (after_cursorAt h)]
  rw [hlast, hd.eq_of_start hin hstart]

theorem nodup_walk_firstCursor (b : Buffer) : (b.firstCursor.walk.map Cursor.address).Nodup := by
  have haddresses : b.firstCursor.walk.map Cursor.address =
      (b.firstCursor.walk.map Cursor.here).map fun p => ⟨p.row, p.index⟩ := by
    rw [List.map_map]
    rfl
  rw [haddresses, map_here_walk_firstCursor]
  exact b.nodup_addresses

/-- The look-ups by row and index find the tokens that the walk comes to. -/
theorem token_eq_some_iff {a : Address} {t : Token} :
    Checked.token b a = some t ↔
      ∃ c ∈ b.firstCursor.walk, c.address = a ∧ c.here.token = t := by
  constructor
  · intro ht
    have hp : (⟨a.row, a.index, b.rowOffset a.row + t.offset, t⟩ : Placed) ∈ b.placed :=
      mem_placed_iff.2 ⟨ht, rfl⟩
    rw [← map_here_walk_firstCursor] at hp
    obtain ⟨c, hc, hhere⟩ := List.mem_map.1 hp
    exact ⟨c, hc, by rw [Cursor.address, hhere], by rw [hhere]⟩
  · rintro ⟨c, hc, rfl, rfl⟩
    exact Checked.token_eq (mem_walk_firstCursor.1 hc)

/-- The walk from the first token to where no step on is left comes to every token of every row once.
What it reads is the text and a last line break. Each step leads over the token that is left, and
the steps back undo it. An offset of the buffer belongs to one cursor of the walk, the one on the
token that covers it. Any larger one belongs to the last cursor. -/
theorem walk_firstCursor (b : Buffer) :
    let visited := b.firstCursor.walk
    (∀ a t, Checked.token b a = some t ↔ ∃ c ∈ visited, c.address = a ∧ c.here.token = t) ∧
    (visited.map Cursor.address).Nodup ∧
    (∀ c, c ∈ visited ↔ c.In b) ∧
    visited.flatMap Cursor.raw = b.text ++ ['\n'] ∧
    (∀ c ∈ visited, c.start = b.rowOffset c.here.row + c.here.token.offset ∧
      (∀ d, c.next? = some d → d.start = c.start + c.here.token.length ∧ d.prev? = some c) ∧
      ∀ d, c.prev? = some d → d.next? = some c) ∧
    (∀ offset ≤ b.maxOffset, ∀ c,
      c ∈ visited ∧ c.start ≤ offset ∧ offset < c.start + c.here.token.length ↔
        c = b.cursorAt offset) ∧
    ∀ offset, b.maxOffset < offset → visited.getLast? = some (b.cursorAt offset) := by
  intro visited
  have hread : visited.flatMap Cursor.raw = b.text ++ ['\n'] := by
    rw [← b.rawText_placed, ← map_here_walk_firstCursor, rawText, List.flatMap_map]
    rfl
  have hsteps : ∀ c ∈ visited, c.start = b.rowOffset c.here.row + c.here.token.offset ∧
      (∀ d, c.next? = some d → d.start = c.start + c.here.token.length ∧ d.prev? = some c) ∧
      ∀ d, c.prev? = some d → d.next? = some c := by
    intro c hc
    have hin := mem_walk_firstCursor.1 hc
    exact ⟨hin.start_eq, fun d hd => ⟨hin.start_next? hd, Cursor.prev?_of_next? hd⟩,
      fun d hd => Cursor.next?_of_prev? hd⟩
  have hcovers : ∀ offset ≤ b.maxOffset, ∀ c,
      c ∈ visited ∧ c.start ≤ offset ∧ offset < c.start + c.here.token.length ↔
        c = b.cursorAt offset := by
    intro offset hle c
    constructor
    · rintro ⟨hc, hcover⟩
      exact (eq_cursorAt_iff (mem_walk_firstCursor.1 hc) hle).1 hcover
    · rintro rfl
      have hin := b.in_cursorAt offset
      exact ⟨mem_walk_firstCursor.2 hin, (eq_cursorAt_iff hin hle).2 rfl⟩
  exact ⟨fun a t => token_eq_some_iff, b.nodup_walk_firstCursor, fun c => mem_walk_firstCursor,
    hread, hsteps, hcovers, fun offset h => getLast_walk_firstCursor h⟩

end Buffer
end StructEdit
