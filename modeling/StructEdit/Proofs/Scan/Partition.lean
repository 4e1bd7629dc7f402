import StructEdit.Buffer.Line
import StructEdit.Proofs.Scan.Munch

/-!
# How a line comes apart into tokens

`Scanned` describes a scan from a column on: one token after the other, each read in the
mode that the one before it leaves, and the line end last. `scanned_scanLine` says that
this is what `scanLine` does, and everything about the tokens of a line follows by
induction over it. The raw texts are the line, the offsets are the places of the raw texts
in it, and the line end is the last token and no other.
-/
namespace StructEdit

/-- The kind and length of the next token: the longest match, or else the rest as junk. -/
def Mode.read? (mode : Mode) (s : Text) : Option (Kind × Nat) :=
  match mode.grammar.longest? s with
  | some r => some r
  | none => if s.isEmpty then none else some (.junk, s.length)

theorem Mode.read?_fits {mode : Mode} {s : Text} {k : Kind} {n : Nat}
    (h : mode.read? s = some (k, n)) : 0 < n ∧ n ≤ s.length := by
  unfold read? at h
  split at h
  · rename_i r hr
    obtain rfl := Option.some.inj h
    exact mode.grammar.fits_longest? s k n hr
  · split at h
    · simp at h
    · rename_i he
      obtain ⟨-, rfl⟩ := Prod.mk.inj (Option.some.inj h)
      exact ⟨List.length_pos_iff.2 (by simpa using he), Nat.le_refl _⟩

theorem Mode.read?_eq_none {mode : Mode} {s : Text} (h : mode.read? s = none) : s = [] := by
  unfold read? at h
  split at h
  · simp at h
  · split at h
    · rename_i he
      simpa using he
    · simp at h

theorem Lexer.scanOrSkip_eq {x : Lexer} {mode : Mode} (h : x.grammar = mode.grammar) :
    x.scanOrSkip = (mode.read? x.rest).map fun (k, n) => x.take k n := by
  simp only [scanOrSkip, scan, h, Mode.read?]
  cases mode.grammar.longest? x.rest with
  | some r => rfl
  | none =>
    by_cases he : x.rest.isEmpty
    · simp [atEnd, he]
    · simp [atEnd, skipRest, he]

/-- A scan from a column on: the tokens of the rest of the line, and the mode after them. -/
inductive Scanned : Mode → Nat → Text → List Token → Mode → Prop
  | nil (mode : Mode) (column : Nat) : Scanned mode column [] [.lineEnd column mode] mode
  | cons {mode last : Mode} {column : Nat} {raw rest : Text} {kind : Kind} {ts : List Token} :
      raw ≠ [] → mode.read? (raw ++ rest) = some (kind, raw.length) →
      Scanned (mode.after kind) (column + raw.length) rest ts last →
      Scanned mode column (raw ++ rest) (⟨kind, raw, column, mode.after kind⟩ :: ts) last

theorem Lexer.scanned_tokens (mode : Mode) (x : Lexer) (h : x.grammar = mode.grammar) :
    Scanned mode x.column x.rest (x.tokens mode).1 (x.tokens mode).2 := by
  fun_induction Lexer.tokens mode x with
  | case1 mode x hnone =>
    rw [scanOrSkip_eq h, Option.map_eq_none_iff] at hnone
    rw [Mode.read?_eq_none hnone]
    exact .nil mode x.column
  | case2 mode x t y hsome hlt next ts last hrec ih =>
    rw [scanOrSkip_eq h, Option.map_eq_some_iff] at hsome
    obtain ⟨⟨k, n⟩, hread, htake⟩ := hsome
    obtain ⟨hpos, hle⟩ := Mode.read?_fits hread
    obtain ⟨rfl, rfl⟩ := Prod.mk.inj htake
    have hlen : (x.rest.take n).length = n := by rw [List.length_take, Nat.min_eq_left hle]
    have hscan := ih rfl
    rw [hrec] at hscan
    have hraw : x.rest.take n ≠ [] := by
      rw [← List.length_pos_iff, hlen]
      exact hpos
    have hread' : mode.read? (x.rest.take n ++ x.rest.drop n) =
        some (k, (x.rest.take n).length) := by
      rw [List.take_append_drop, hlen]
      exact hread
    have hcons : Scanned mode x.column _ _ _ := Scanned.cons hraw hread' hscan
    rwa [List.take_append_drop] at hcons

theorem scanned_scanLine (line : Text) (mode : Mode) :
    Scanned mode 0 line (scanLine line mode).1 (scanLine line mode).2 :=
  Lexer.scanned_tokens mode (Lexer.new mode.grammar line) rfl

theorem Line.scannedTokens (l : Line) : Scanned l.start 0 l.text l.tokens l.stop := by
  have h := scanned_scanLine l.text l.start
  rwa [l.scanned] at h

/-! ## The tokens make up the line -/

/-- Nothing that is read is the end of a line. -/
theorem Mode.read?_ne_lineEnd {mode : Mode} {s : Text} {k : Kind} {n : Nat}
    (h : mode.read? s = some (k, n)) : k ≠ .lineEnd := by
  have hgrammar : ∀ t ∈ mode.grammar, t.kind ≠ .lineEnd := by
    cases mode <;> decide +kernel
  unfold read? at h
  split at h
  · rename_i r hr
    obtain rfl := Option.some.inj h
    obtain ⟨t, ht, rfl, -⟩ := Grammar.exists_of_longest? hr
    exact hgrammar t ht
  · split at h
    · simp at h
    · obtain ⟨rfl, -⟩ := Prod.mk.inj (Option.some.inj h)
      simp

structure Partitions (column : Nat) (s : Text) (ts : List Token) : Prop where
  piece : ∀ t ∈ ts, t.raw ≠ [] ∧ t.kind ≠ .lineEnd
  raws : ts.flatMap Token.raw = s
  /-- A token starts where the tokens before it end. -/
  offset : ∀ front t back, ts = front ++ t :: back →
    t.offset = column + (front.flatMap Token.raw).length

theorem Partitions.nil (column : Nat) : Partitions column [] [] := ⟨by simp, rfl, by simp⟩

theorem Partitions.cons {column : Nat} {raw rest : Text} {kind : Kind} {ts : List Token}
    (h : Partitions (column + raw.length) rest ts) (hraw : raw ≠ []) (hk : kind ≠ .lineEnd)
    (mode : Mode) : Partitions column (raw ++ rest) (⟨kind, raw, column, mode⟩ :: ts) where
  piece := List.forall_mem_cons.2 ⟨⟨hraw, hk⟩, h.piece⟩
  raws := by rw [List.flatMap_cons, h.raws]
  offset := by
    intro front u back hu
    cases front with
    | nil =>
      obtain ⟨rfl, -⟩ := List.cons.inj hu
      rfl
    | cons v front =>
      obtain ⟨rfl, hrest⟩ := List.cons.inj hu
      rw [h.offset front u back hrest, List.flatMap_cons, List.length_append, Nat.add_assoc]

/-- A scan gives the pieces of the text, and then the end of the line once. -/
theorem Scanned.partitions {mode last : Mode} {column : Nat} {s : Text} {ts : List Token}
    (h : Scanned mode column s ts last) :
    ∃ us, ts = us ++ [.lineEnd (column + s.length) last] ∧ Partitions column s us := by
  induction h with
  | nil mode column => exact ⟨[], rfl, .nil column⟩
  | @cons mode last column raw rest kind ts hraw hread _ ih =>
    obtain ⟨us, rfl, hus⟩ := ih
    refine ⟨⟨kind, raw, column, mode.after kind⟩ :: us, ?_,
      hus.cons hraw (Mode.read?_ne_lineEnd hread) _⟩
    rw [List.length_append, ← Nat.add_assoc]
    rfl

/-- Whatever characters a line has, breaks among them, its tokens are pieces of the line, none of
them empty, and the end of the line behind them. The pieces make up the line, each stands where
those before it end, and the last token keeps the mode that the next line starts in. -/
theorem scanLine_partitions (line : Text) (mode : Mode) :
    ∃ ts e, (scanLine line mode).1 = ts ++ [e] ∧
      (∀ t ∈ ts, t.raw ≠ [] ∧ t.kind ≠ .lineEnd) ∧
      ts.flatMap Token.raw = line ∧
      (∀ front t back, ts = front ++ t :: back → t.offset = (front.flatMap Token.raw).length) ∧
      e.kind = .lineEnd ∧ e.offset = line.length ∧ e.mode = (scanLine line mode).2 := by
  obtain ⟨ts, htokens, hparts⟩ := (scanned_scanLine line mode).partitions
  rw [Nat.zero_add] at htokens
  refine ⟨ts, _, htokens, hparts.piece, hparts.raws, fun front t back hts => ?_, rfl, rfl, rfl⟩
  rw [hparts.offset front t back hts, Nat.zero_add]

end StructEdit
