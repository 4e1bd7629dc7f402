import StructEdit.Cursor.Enclosing
import StructEdit.Proofs.Buffer.Offsets
import StructEdit.Proofs.Scan.Partition

/-!
# Places of tokens and cursors

The tokens of a buffer abut: the first starts at offset zero and each other one where
the one before it stops. Their raw texts, one after the other, are the text of the buffer and
a last line break. A cursor that walks over the tokens of a buffer stands, by what it has
behind it, at a known place in the text.

Motions keep the tokens that a cursor walks over. They are compared by the number of
tokens behind the cursor.
-/
namespace StructEdit

/-- The tokens stand one behind the other, from offset `n` on. -/
def Abut (n : Nat) : List Placed → Prop
  | [] => True
  | p :: ps => p.start = n ∧ Abut p.stop ps

/-- The raw texts, one after the other. -/
def rawText (ps : List Placed) : Text := ps.flatMap fun p => p.token.raw

@[simp] theorem rawText_nil : rawText [] = [] := rfl

@[simp] theorem rawText_cons (p : Placed) (ps : List Placed) :
    rawText (p :: ps) = p.token.raw ++ rawText ps := rfl

@[simp] theorem rawText_append (ps qs : List Placed) :
    rawText (ps ++ qs) = rawText ps ++ rawText qs := by
  simp [rawText]

theorem abut_append {n : Nat} {ps qs : List Placed} :
    Abut n (ps ++ qs) ↔ Abut n ps ∧ Abut (n + (rawText ps).length) qs := by
  induction ps generalizing n with
  | nil => simp [Abut]
  | cons p ps ih =>
    simp only [List.cons_append, Abut, ih, rawText_cons, List.length_append, and_assoc]
    constructor
    · rintro ⟨rfl, h₁, h₂⟩
      refine ⟨rfl, h₁, ?_⟩
      rwa [Placed.stop, Token.length, Nat.add_assoc] at h₂
    · rintro ⟨rfl, h₁, h₂⟩
      refine ⟨rfl, h₁, ?_⟩
      rwa [Placed.stop, Token.length, Nat.add_assoc]

/-! ## The tokens of a buffer -/

theorem Scanned.abut {mode last : Mode} {column : Nat} {s : Text} {ts : List Token}
    (h : Scanned mode column s ts last) (row start index : Nat) :
    Abut (start + column) (placeTokens row start index ts) := by
  induction h generalizing index with
  | nil => exact ⟨rfl, trivial⟩
  | cons _ _ _ ih =>
    refine ⟨rfl, ?_⟩
    have := ih (index + 1)
    rwa [← Nat.add_assoc] at this

theorem Scanned.rawText {mode last : Mode} {column : Nat} {s : Text} {ts : List Token}
    (h : Scanned mode column s ts last) (row start index : Nat) :
    rawText (placeTokens row start index ts) = s ++ ['\n'] := by
  induction h generalizing index with
  | nil => rfl
  | cons _ _ _ ih => rw [placeTokens, rawText_cons, ih, List.append_assoc]

/-- A token reads something. -/
theorem Scanned.raw_ne_nil {mode last : Mode} {column : Nat} {s : Text} {ts : List Token}
    (h : Scanned mode column s ts last) : ∀ t ∈ ts, t.raw ≠ [] := by
  induction h with
  | nil => simp [Token.lineEnd]
  | cons hraw _ _ ih =>
    intro t ht
    rcases List.mem_cons.1 ht with rfl | ht
    · exact hraw
    · exact ih t ht

/-- A token that ends no line reads characters of the line. -/
theorem Scanned.mem_of_mem_raw {mode last : Mode} {column : Nat} {s : Text} {ts : List Token}
    (h : Scanned mode column s ts last) :
    ∀ t ∈ ts, t.kind ≠ .lineEnd → ∀ c ∈ t.raw, c ∈ s := by
  induction h with
  | nil => simp
  | cons _ _ _ ih =>
    intro t ht hk c hc
    rcases List.mem_cons.1 ht with rfl | ht
    · exact List.mem_append_left _ hc
    · exact List.mem_append_right _ (ih t ht hk c hc)

theorem mem_placeTokens {row start index : Nat} {ts : List Token} {p : Placed}
    (h : p ∈ placeTokens row start index ts) : p.token ∈ ts := by
  induction ts generalizing index with
  | nil => simp [placeTokens] at h
  | cons t ts ih =>
    rcases List.mem_cons.1 h with rfl | h
    · exact List.mem_cons_self
    · exact List.mem_cons_of_mem _ (ih h)

theorem mem_placeLines {row start : Nat} {ls : List Line} {p : Placed}
    (h : p ∈ placeLines row start ls) : ∃ l ∈ ls, p.token ∈ l.tokens := by
  induction ls generalizing row start with
  | nil => simp [placeLines] at h
  | cons l ls ih =>
    rcases List.mem_append.1 h with h | h
    · exact ⟨l, List.mem_cons_self, mem_placeTokens h⟩
    · obtain ⟨m, hm, ht⟩ := ih h
      exact ⟨m, List.mem_cons_of_mem _ hm, ht⟩

theorem abut_placeLines (row start : Nat) (ls : List Line) : Abut start (placeLines row start ls) := by
  induction ls generalizing row start with
  | nil => trivial
  | cons l ls ih =>
    rw [placeLines, abut_append, l.scannedTokens.rawText]
    refine ⟨l.scannedTokens.abut row start 0, ?_⟩
    rw [List.length_append]
    exact ih (row + 1) (start + (l.length + 1))

theorem rawText_placeLines (row start : Nat) {ls : List Line} (h : ls ≠ []) :
    rawText (placeLines row start ls) = Text.joinLines (ls.map Line.text) ++ ['\n'] := by
  induction ls generalizing row start with
  | nil => exact absurd rfl h
  | cons l ls ih =>
    rw [placeLines, rawText_append, l.scannedTokens.rawText]
    by_cases hls : ls = []
    · subst hls
      simp [placeLines]
    · rw [ih _ _ hls, List.map_cons, Text.joinLines_cons _ (by simpa using hls)]
      simp

namespace Buffer

theorem abut_placed (b : Buffer) : Abut 0 b.placed := abut_placeLines 0 0 b.lines

/-- The tokens are the text and a last line break. -/
theorem rawText_placed (b : Buffer) : rawText b.placed = b.text ++ ['\n'] :=
  rawText_placeLines 0 0 b.lines_ne_nil

theorem raw_ne_nil_of_mem_placed {b : Buffer} {p : Placed} (h : p ∈ b.placed) :
    p.token.raw ≠ [] := by
  obtain ⟨l, -, ht⟩ := mem_placeLines h
  exact l.scannedTokens.raw_ne_nil _ ht

theorem mem_text_of_mem_raw {b : Buffer} {p : Placed} (h : p ∈ b.placed) (hk : p.kind ≠ .lineEnd)
    {c : Char} (hc : c ∈ p.token.raw) : ∃ l ∈ b.lines, c ∈ l.text := by
  obtain ⟨l, hl, ht⟩ := mem_placeLines h
  exact ⟨l, hl, l.scannedTokens.mem_of_mem_raw _ ht hk c hc⟩

end Buffer

/-! ## Cursors in a buffer -/

namespace Cursor

/-- The cursor walks over the tokens of the buffer. -/
def In (c : Cursor) (b : Buffer) : Prop := c.toList = b.placed

theorem In.here_mem {c : Cursor} {b : Buffer} (h : c.In b) : c.here ∈ b.placed := by
  rw [← h, toList]
  simp

theorem In.before_mem {c : Cursor} {b : Buffer} (h : c.In b) {q : Placed} (hq : q ∈ c.before) :
    q ∈ b.placed := by
  rw [← h, toList]
  exact List.mem_append_left _ (List.mem_reverse.2 hq)

theorem In.abut {c : Cursor} {b : Buffer} (h : c.In b) :
    c.start = (StructEdit.rawText c.before.reverse).length ∧ Abut c.here.stop c.after := by
  have := b.abut_placed
  rw [← h, toList, abut_append] at this
  obtain ⟨-, hstart, hafter⟩ := this
  exact ⟨by rw [start, hstart, Nat.zero_add], hafter⟩

theorem In.rawText {c : Cursor} {b : Buffer} (h : c.In b) :
    StructEdit.rawText c.before.reverse ++ (c.raw ++ StructEdit.rawText c.after) =
      b.text ++ ['\n'] := by
  rw [← b.rawText_placed, ← h, toList, rawText_append, rawText_cons]
  rfl

theorem In.start_add_length_le {c : Cursor} {b : Buffer} (h : c.In b) :
    c.start + c.raw.length ≤ b.maxOffset + 1 := by
  have hlen := congrArg List.length h.rawText
  simp only [List.length_append, List.length_singleton, b.length_text] at hlen
  have hstart := h.abut.1
  omega

theorem In.raw_length_pos {c : Cursor} {b : Buffer} (h : c.In b) : 0 < c.raw.length :=
  List.length_pos_iff.2 (Buffer.raw_ne_nil_of_mem_placed h.here_mem)

theorem In.start_le {c : Cursor} {b : Buffer} (h : c.In b) : c.start ≤ b.maxOffset := by
  have := h.start_add_length_le
  have := h.raw_length_pos
  omega

theorem In.stop_le {c : Cursor} {b : Buffer} (h : c.In b) : c.stop ≤ b.maxOffset := by
  unfold stop
  split
  · exact h.start_le
  · rename_i hne
    obtain ⟨before, here, after⟩ := c
    cases after with
    | nil => simp at hne
    | cons n after =>
      have hnext : In ⟨here :: before, n, after⟩ b := by
        rw [In, ← h]
        simp [toList]
      have hn : n.start = here.stop := h.abut.2.1
      exact hn ▸ hnext.start_le

theorem In.take_text {c : Cursor} {b : Buffer} (h : c.In b) :
    b.text.take c.start = StructEdit.rawText c.before.reverse := by
  have hle : c.start ≤ b.text.length := by rw [b.length_text]; exact h.start_le
  have hraw := congrArg (List.take c.start) h.rawText
  rw [List.take_left' h.abut.1.symm, List.take_append_of_le_length hle] at hraw
  exact hraw.symm

theorem In.before_eq {c : Cursor} {b : Buffer} (h : c.In b) :
    c.before.reverse = b.placed.take c.before.length := by
  rw [← h, toList, List.take_left' (by simp)]

/-- Of two cursors in a buffer, the one with more tokens behind it stands further on. -/
theorem In.start_mono {c d : Cursor} {b : Buffer} (hc : c.In b) (hd : d.In b)
    (h : c.before.length ≤ d.before.length) : c.start ≤ d.start := by
  rw [hc.abut.1, hd.abut.1, hc.before_eq, hd.before_eq]
  have hsplit : b.placed.take d.before.length =
      b.placed.take c.before.length ++ (b.placed.take d.before.length).drop c.before.length := by
    have := List.take_append_drop c.before.length (b.placed.take d.before.length)
    rw [List.take_take, Nat.min_eq_left h] at this
    exact this.symm
  rw [hsplit, rawText_append, List.length_append]
  omega

end Cursor
end StructEdit
