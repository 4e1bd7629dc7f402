import StructEdit.Proofs.Checked.Addresses
import StructEdit.Proofs.Scan.Brackets

/-!
# Cursors inside strings

A cursor tells from the kinds of its token and of the one before it whether it is inside a
string. The scanner knows it from the mode in which it came to the token. The two agree on every
token but those that a row inside a string overlooks: the end of a row without text, and a
backslash with nothing behind it on its row, together with the line end after it. There the
cursor takes the inside of a string for code, and commands that are meant to refuse inside
strings run.
-/
namespace StructEdit

namespace Line

/-- The mode in which the scanner comes to the token at an index. -/
def modeBefore (l : Line) : Nat → Mode
  | 0 => l.start
  | index + 1 => (l.tokens[index]?).elim l.start Token.mode

/-- The row has no text, or it ends with a backslash that escapes nothing and the column is that of
the backslash or of the line end. -/
def Overlooks (l : Line) (column : Nat) : Prop :=
  l.text = [] ∨ l.start.place.after l.text = .escape ∧ l.length ≤ column + 1

instance (l : Line) (column : Nat) : Decidable (l.Overlooks column) :=
  inferInstanceAs (Decidable (_ ∨ _ ∧ _))

theorem modeBefore_length {l : Line} {left right : List Token} (h : l.tokens = left ++ right) :
    l.modeBefore left.length = left.getLast?.elim l.start Token.mode := by
  rcases List.eq_nil_or_concat left with rfl | ⟨init, p, rfl⟩
  · rfl
  · simp [modeBefore, h]

end Line

/-! ## Cutting a scan at a token -/

/-- The scan goes on from any of its tokens. Where text is left, the mode tells where a reader of
the characters is. -/
theorem Scanned.split {mode last : Mode} {column : Nat} {s : Text} {left right : List Token}
    {t : Token} (h : Scanned mode column s (left ++ t :: right) last) (hn : '\n' ∉ s) :
    ∃ front rest, s = front ++ rest ∧
      Scanned (left.getLast?.elim mode Token.mode) (column + front.length) rest (t :: right) last ∧
      (rest ≠ [] → mode.place.after front = (left.getLast?.elim mode Token.mode).place) := by
  induction left generalizing mode column s with
  | nil => exact ⟨[], s, rfl, h, fun _ => rfl⟩
  | cons x left ih =>
    rw [List.cons_append] at h
    generalize hts : left ++ t :: right = ts at h
    cases h with
    | nil => simp at hts
    | @cons _ _ _ raw behind kind _ hne hread hscan =>
      subst hts
      have hbehind : '\n' ∉ behind := fun hm => hn (List.mem_append_right _ hm)
      obtain ⟨front, rest, rfl, hrest, hplace⟩ := ih hscan hbehind
      have hmode : ((⟨kind, raw, column, mode.after kind⟩ : Token) :: left).getLast?.elim mode
          Token.mode = left.getLast?.elim (mode.after kind) Token.mode := by
        cases left with
        | nil => rfl
        | cons y ys => rw [List.getLast?_cons_cons, List.getLast?_eq_some_getLast (by simp)]; rfl
      rw [hmode]
      refine ⟨raw ++ front, rest, (List.append_assoc _ _ _).symm, ?_, fun hne' => ?_⟩
      · rw [List.length_append, ← Nat.add_assoc]
        exact hrest
      · rcases (Mode.suits_read hne hn hread).2 with heq | ⟨hnil, -⟩
        · rw [Place.after_append, heq]
          exact hplace hne'
        · exact absurd (List.append_eq_nil_iff.1 hnil).2 hne'

/-- Where the scan comes to the line end, no text is left. -/
theorem Scanned.of_lineEnd {mode last : Mode} {column : Nat} {s : Text} {right : List Token}
    {t : Token} (h : Scanned mode column s (t :: right) last) (hn : '\n' ∉ s)
    (hk : t.kind = .lineEnd) : s = [] ∧ t.offset = column := by
  cases h with
  | nil => exact ⟨rfl, rfl⟩
  | cons hne hread _ =>
    have hraw := (Mode.suits_read hne hn hread).1.lineEnd hk
    simp [hraw] at hn

theorem Mode.pass_eq_escape {m : Mode} {k : Kind} :
    m.place.pass k = .escape ↔ m = .string ∧ k = .junk := by
  cases m <;> cases k <;> simp [Mode.place, Place.pass]

/-- The parts of strings that reach the end of the row, among the tokens read in a mode: those that
leave a string open, but for junk. -/
theorem Mode.part_iff {m : Mode} {k : Kind} (h : m.place.admits k = true) (hk : k ≠ .lineEnd) :
    k = .stringMiddle ∨ k = .stringStart ↔
      (m.after k).inString = true ∧ ¬(m = .string ∧ k = .junk) := by
  cases m <;> cases k <;> simp_all [Mode.place, Place.admits, Mode.after, Mode.inString]

namespace Line

variable {l : Line} {left right : List Token} {t : Token}

/-- In a string, the row overlooks a token with text on it exactly when the token is junk. -/
theorem overlooks_iff_junk {front raw behind : Text} {kind : Kind} (hn : '\n' ∉ l.text)
    (htext : l.text = front ++ (raw ++ behind)) (hplace : l.start.place.after front = .string)
    (hne : raw ≠ []) (hread : Mode.string.read? (raw ++ behind) = some (kind, raw.length)) :
    l.Overlooks front.length ↔ kind = .junk := by
  have hn' : '\n' ∉ raw ++ behind := fun hm => hn (htext ▸ List.mem_append_right _ hm)
  have hpos : 0 < raw.length := List.length_pos_iff.2 hne
  have hlength : l.length = front.length + (raw.length + behind.length) := by
    rw [Line.length, htext, List.length_append, List.length_append]
  constructor
  · rintro (hnil | ⟨hafter, hle⟩)
    · simp [htext, hne] at hnil
    · obtain rfl : behind = [] := List.length_eq_zero_iff.1 (by omega)
      rw [htext, Place.after_append, hplace, List.append_nil,
        (suits_string hne hn' hread).1.after] at hafter
      exact (Mode.pass_eq_escape (m := .string).1 hafter).2
  · rintro rfl
    obtain ⟨rfl, rfl⟩ := junk_of_string hne hn' hread
    refine Or.inr ⟨?_, by simpa using Nat.le_of_eq hlength⟩
    rw [htext, Place.after_append, hplace]
    rfl

theorem isString_iff (hn : '\n' ∉ l.text) (h : l.tokens = left ++ t :: right)
    (hk : t.kind ≠ .lineEnd) :
    t.kind.isString = true ↔
      (t.kind.isString = true ∨ (l.modeBefore left.length).inString = true) ∧
        ¬((l.modeBefore left.length).inString = true ∧ l.Overlooks t.offset) := by
  obtain ⟨front, rest, htext, hscan, hplace⟩ := (h ▸ l.scannedTokens).split hn
  rw [modeBefore_length h]
  generalize left.getLast?.elim l.start Token.mode = m at hscan hplace
  cases hscan with
  | nil => exact absurd rfl hk
  | @cons _ _ _ raw behind kind _ hne hread hscan =>
    cases m with
    | code => simp [Mode.inString]
    | string =>
      have hplace' := hplace (by simp [hne])
      have hn' : '\n' ∉ raw ++ behind := fun hm => hn (htext ▸ List.mem_append_right _ hm)
      have hadmits : Place.string.admits kind = true := (suits_string hne hn' hread).1.admits
      rw [Nat.zero_add, overlooks_iff_junk hn htext hplace' hne hread]
      cases kind <;> simp_all [Place.admits, Mode.inString, Kind.isString]

theorem lineEnd_iff (hn : '\n' ∉ l.text) (h : l.tokens = left ++ t :: right)
    (hk : t.kind = .lineEnd) :
    (left.getLast?.elim .lineEnd Token.kind = .stringMiddle ∨
        left.getLast?.elim .lineEnd Token.kind = .stringStart) ↔
      (l.modeBefore left.length).inString = true ∧
        ¬((l.modeBefore left.length).inString = true ∧ l.Overlooks t.offset) := by
  have hscan := h ▸ l.scannedTokens
  rw [modeBefore_length h]
  rcases List.eq_nil_or_concat left with rfl | ⟨init, p, rfl⟩
  · have hover : l.Overlooks t.offset := Or.inl (Scanned.of_lineEnd hscan hn hk).1
    simp [hover]
  · rw [List.concat_eq_append, List.append_assoc, List.singleton_append] at hscan
    obtain ⟨front, rest, htext, hscan, hplace⟩ := hscan.split hn
    generalize init.getLast?.elim l.start Token.mode = m at hscan hplace
    cases hscan with
    | @cons _ _ _ raw behind kind _ hne hread hscan =>
      have hn' : '\n' ∉ raw ++ behind := fun hm => hn (htext ▸ List.mem_append_right _ hm)
      have hsuits := (Mode.suits_read hne hn' hread).1
      obtain ⟨rfl, hoffset⟩ := hscan.of_lineEnd (fun hm => hn' (List.mem_append_right _ hm)) hk
      have hafter : l.start.place.after l.text = m.place.pass kind := by
        rw [htext, Place.after_append, hplace (by simp [hne]), List.append_nil, hsuits.after]
      have hover : l.Overlooks t.offset ↔ m = .string ∧ kind = .junk := by
        rw [Overlooks, hafter, Mode.pass_eq_escape, hoffset, Line.length, htext]
        simp [hne]
      have hkind : kind ≠ .lineEnd := by
        rintro rfl
        simp [hsuits.lineEnd rfl] at hn'
      simp only [List.concat_eq_append, List.getLast?_concat, Option.elim_some, hover]
      rw [Mode.part_iff hsuits.admits hkind]
      exact and_congr_right fun hin => by simp [hin]

end Line

/-! ## Cursors -/

section Seats

variable {b : Buffer} {c : Cursor} {above : List Line} {l : Line} {below : List Line}
  {left right : List Token}

/-- Before the first token of a row, a cursor meets the end of another row or nothing at all. -/
theorem Seated.prevKind_eq (h : Seated b c above l below left right) :
    c.prevKind = left.getLast?.elim .lineEnd Token.kind := by
  have hkind : c.prevKind =
      (c.before.reverse.map Placed.token).getLast?.elim .lineEnd Token.kind := by
    rw [List.getLast?_map, List.getLast?_reverse, Cursor.prevKind]
    cases c.before <;> rfl
  rw [hkind, h.before, List.map_append, map_token_placeLines, map_token_placeTokens,
    List.getLast?_append]
  cases left.getLast? with
  | some t => rfl
  | none =>
    cases hlast : (above.flatMap Line.tokens).getLast? with
    | none => rfl
    | some t =>
      obtain ⟨offset, mode, rfl⟩ := exists_lineEnd_last above t hlast
      rfl

theorem Seated.withinString_iff (h : Seated b c above l below left right) (hu : '\n' ∉ l.text) :
    c.withinString = true ↔
      (c.kind.isString = true ∨ (l.modeBefore left.length).inString = true) ∧
        ¬((l.modeBefore left.length).inString = true ∧ l.Overlooks c.position.column) := by
  by_cases hk : c.kind = .lineEnd
  · have hends := Line.lineEnd_iff hu h.tokens hk
    rw [← h.prevKind_eq] at hends
    simpa [Cursor.withinString, Cursor.position, hk, Kind.isString] using hends
  · have hwithin : c.withinString = c.kind.isString := by simp [Cursor.withinString, hk]
    rw [hwithin]
    exact Line.isString_iff hu h.tokens hk

end Seats

/-- In a flushed buffer, whatever has been done to it before, a cursor is within a string exactly
when it stands on a part of one or the scanner comes to its token in one, unless the scanner does
come to it in a string and the row overlooks the token. -/
theorem withinString_iff_before {d : Document}
    (hd : d.buffer = .empty ∨ ∃ s, d.buffer = .ofText s) (ops : List BufferOp) :
    let b := (BufferOp.runAll ops d).buffer.flush
    ∀ c : Cursor, c.In b → ∃ l, b.lines[c.here.row]? = some l ∧
      l.tokens[c.here.index]? = some c.here.token ∧
      (c.withinString = true ↔
        (c.kind.isString = true ∨ (l.modeBefore c.here.index).inString = true) ∧
          ¬((l.modeBefore c.here.index).inString = true ∧ l.Overlooks c.position.column)) := by
  intro b c hc
  have hstart : d.buffer.Unbroken := by
    rcases hd with hd | ⟨s, hd⟩ <;> rw [hd]
    · exact Buffer.unbroken_empty
    · exact .ofText s
  obtain ⟨above, l, below, left, right, hs⟩ := hc.seated
  have hl : l ∈ b.lines := by simp [hs.lines]
  have hbreak : '\n' ∉ l.text := (BufferOp.unbroken_runAll hstart ops).flush l hl
  have hwithin := hs.withinString_iff hbreak
  have hrow : c.here.row = above.length := by rw [hs.here]
  have hindex : c.here.index = left.length := by rw [hs.here]
  rw [hrow, hindex]
  exact ⟨l, by simp [hs.lines], by simp [hs.tokens], hwithin⟩

/-- A cursor on a backslash at the end of a row, in a string. -/
theorem withinString_iff_before_backslash :
    let b := (BufferOp.runAll [.markDirty 1]
      (.ofText ['"', 'a', '\\', '\n', 'b', '"'])).buffer.flush
    (b.cursorAt 2).kind = .junk ∧ ¬(b.cursorAt 2).withinString = true := by
  intro b
  obtain ⟨l, hl, -, hwithin⟩ := withinString_iff_before
    (Or.inr ⟨_, rfl⟩ : (Document.ofText ['"', 'a', '\\', '\n', 'b', '"']).buffer = .empty ∨
      ∃ s, (Document.ofText ['"', 'a', '\\', '\n', 'b', '"']).buffer = .ofText s)
    [.markDirty 1] (b.cursorAt 2) (b.in_cursorAt 2)
  have hover : ∀ m ∈ b.lines[(b.cursorAt 2).here.row]?,
      (m.modeBefore (b.cursorAt 2).here.index).inString = true ∧
        m.Overlooks (b.cursorAt 2).position.column := by decide +kernel
  exact ⟨by decide +kernel, fun h => (hwithin.1 h).2 (hover l hl)⟩

/-- The empty row of a string: the scanner comes to its line end in a string, the cursor is not
within one, and wrapping there puts a list into the string. -/
theorem not_withinString_emptyRow :
    let d := Document.ofText ['"', 'a', '\n', '\n', 'b', '"']
    let c := d.buffer.flush.cursorAt 3
    (∀ l ∈ d.buffer.flush.lines[c.here.row]?, (l.modeBefore c.here.index).inString = true) ∧
      c.here.row = 1 ∧ c.withinString = false ∧
      let e := (Command.setCaret 3).apply d
      ((Command.wrap ['('] [')']).run e).2 = .done ∧
        ((Command.wrap ['('] [')']).run e).1.text ≠ e.text := by
  decide +kernel

end StructEdit
