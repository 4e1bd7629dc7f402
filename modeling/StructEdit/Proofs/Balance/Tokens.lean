import StructEdit.Proofs.Balance.Reading
import StructEdit.Proofs.Scan.Terminals

/-!
# Tokens as steps of reading

A token takes a reader from its first character to the place behind it in one step, which its
kind decides, and its fences are those of its text. The reader is at the right place when it
comes to the token, and inside the token it meets no bracket.
-/
namespace StructEdit
open Pattern Scan

/-- The place behind a token of the given kind. -/
def Place.pass : Place → Kind → Place
  | _, .stringStart => .string
  | _, .stringEnd => .code
  | _, .comment => .comment
  | .string, .junk => .escape
  | .comment, .lineEnd => .code
  | .escape, .lineEnd => .string
  | p, _ => p

/-- The kinds of tokens that can start at a place. -/
def Place.admits : Place → Kind → Bool
  | .code, k => k != .stringMiddle && k != .stringEnd
  | .string, k => k == .stringMiddle || k == .stringEnd || k == .junk || k == .lineEnd
  | .comment, k | .escape, k => k == .lineEnd

/-- The fences of a token. -/
def Kind.fences (k : Kind) (raw : Text) : List Fence :=
  match k with
  | .opening => (Bracket.ofText? raw).toList.map .opens
  | .closing => (Bracket.ofText? raw).toList.map .closes
  | _ => []

/-- The texts of opening delimiters. -/
def Bracket.openers : List Text :=
  [['('], ['['], ['\x7b'], ['#', '('], ['#', '?', '('], ['#', '\x7b'], ['#', '?', '@', '(']]

/-- The texts of closing delimiters. -/
def Bracket.closers : List Text := [[')'], [']'], ['\x7d']]

/-- The places inside a token of the kind, behind its first character. -/
def Kind.Holds (k : Kind) : Place → Prop
  | .code => k ≠ .comment ∧ k.isString = false
  | .comment => k = .comment
  | .string | .escape => k.isString = true

/-- A token of this kind and text can stand at the place, and its kind says where it leads to. -/
structure Suits (p : Place) (k : Kind) (raw : Text) : Prop where
  admits : p.admits k = true
  after : p.after raw = p.pass k
  fences : p.fences raw = k.fences raw
  /-- No bracket comes before the end of the token. -/
  part : ∀ n < raw.length, p.fences (raw.take n) = []
  holds : ∀ n < raw.length, 0 < n → k.Holds (p.after (raw.take n))
  opening : k = .opening → raw ∈ Bracket.openers
  closing : k = .closing → raw ∈ Bracket.closers
  lineEnd : k = .lineEnd → raw = ['\n']
  quote : k = .string ∨ k = .stringStart → ∃ rest, raw = '"' :: rest

theorem Suits.paired {p : Place} {k : Kind} {raw : Text} (h : Suits p k raw)
    (hk : k = .opening ∨ k = .closing) : ∃ b, Bracket.ofText? raw = some b := by
  have hall : ∀ o ∈ Bracket.openers ++ Bracket.closers, (Bracket.ofText? o).isSome = true := by
    decide
  refine Option.isSome_iff_exists.1 (hall raw ?_)
  exact List.mem_append.2 (hk.imp h.opening h.closing)

/-- A token that starts in a string with no quote, backslash or break belongs to the string. -/
theorem Suits.isString_of_quiet {p : Place} {k : Kind} {c : Char} {raw : Text}
    (h : Suits p k (c :: raw)) (hp : p.isFinal = false) (hc : c ≠ '"' ∧ c ≠ '\\' ∧ c ≠ '\n') :
    k.isString = true := by
  have hline : k ≠ .lineEnd := fun hk => hc.2.2 (List.cons.inj (h.lineEnd hk)).1
  have hadmits := h.admits
  cases p with
  | code | comment => cases hp
  | escape => exact absurd (by simpa [Place.admits] using hadmits) hline
  | string =>
    have hstep : Place.string.after [c] = .string := by
      simp [Place.after, Place.step, hc.1, hc.2.1]
    cases raw with
    | nil =>
      have hafter := h.after
      rw [hstep] at hafter
      revert hadmits hafter hline
      cases k <;> decide
    | cons d raw =>
      have hholds := h.holds 1 (by simp) Nat.one_pos
      rwa [List.take_succ_cons, List.take_zero, hstep] at hholds

/-- Before its last quote, the reader of a string is in it. -/
theorem Suits.string_last {p : Place} {k : Kind} {raw : Text} (h : Suits p k raw)
    (hk : k = .string ∨ k = .stringEnd) (hne : raw ≠ []) :
    p.after (raw.take (raw.length - 1)) = .string := by
  have hstep : (p.after (raw.take (raw.length - 1))).step (raw.getLast hne) = .code := by
    have hafter := h.after
    rw [← List.dropLast_concat_getLast hne, Place.after_append, List.dropLast_eq_take] at hafter
    have hpass : p.pass k = .code := by
      have hadmits := h.admits
      rcases hk with rfl | rfl <;> cases p <;> simp_all [Place.admits, Place.pass]
    exact hafter.trans hpass
  rcases Nat.eq_zero_or_pos (raw.length - 1) with hzero | hpos
  · rw [hzero] at hstep ⊢
    have hadmits := h.admits
    rcases hk with rfl | rfl
    · obtain ⟨rest, rfl⟩ := h.quote (Or.inl rfl)
      obtain rfl : rest = [] := List.length_eq_zero_iff.1 (by simpa using hzero)
      cases p <;> simp_all [Place.admits, Place.step]
    · cases p <;> simp_all [Place.admits]
  · have hholds := h.holds _ (by omega) hpos
    generalize p.after (raw.take (raw.length - 1)) = q at hholds hstep
    have hstring : k.isString = true := by
      rcases hk with rfl | rfl <;> rfl
    cases q with
    | string => rfl
    | escape => simp [Place.step] at hstep
    | code => exact absurd hholds.2 (by simp [hstring])
    | comment =>
      obtain rfl : k = .comment := hholds
      simp at hk

/-- The first quote of a string leads from code into it. -/
theorem Suits.string_first {p : Place} {k : Kind} {raw : Text} (h : Suits p k raw)
    (hk : k = .string ∨ k = .stringStart) :
    p.after (raw.take 1) = .string ∧ p.fences (raw.take 1) = [] := by
  obtain ⟨rest, rfl⟩ := h.quote hk
  have hcode : p = .code := by
    have hadmits := h.admits
    rcases hk with rfl | rfl <;> cases p <;> simp_all [Place.admits]
  subst hcode
  exact ⟨rfl, rfl⟩

/-! ## Plain texts -/

theorem ofChar?_of_not_mem {c : Char} (h : c ∉ delimiters) : Fence.ofChar? c = none := by
  unfold Fence.ofChar?
  split <;> first | rfl | exact absurd (by decide) h

theorem step_code_of_not_mem {c : Char} (h : c ∉ delimiters) : Place.code.step c = .code := by
  have hq : c ≠ '"' := by
    rintro rfl
    exact h (by decide)
  have hs : c ≠ ';' := by
    rintro rfl
    exact h (by decide)
  simp [Place.step, hq, hs]

theorem read_plain {s : Text} (h : ∀ c ∈ s, c ∉ delimiters) :
    Place.code.after s = .code ∧ Place.code.fences s = [] := by
  induction s with
  | nil => exact ⟨rfl, rfl⟩
  | cons c s ih =>
    have hc := h c List.mem_cons_self
    obtain ⟨ha, hf⟩ := ih fun d hd => h d (List.mem_cons_of_mem _ hd)
    constructor
    · rw [Place.after, step_code_of_not_mem hc, ha]
    · rw [Place.fences, step_code_of_not_mem hc, hf, ofChar?_of_not_mem hc]
      rfl

/-- Kinds whose tokens hold no delimiter. -/
def Kind.isPlain : Kind → Bool
  | .blank | .mark | .literal | .keyword | .symbol | .junk => true
  | _ => false

theorem suits_plain {k : Kind} {raw : Text} (hk : k.isPlain = true)
    (h : ∀ c ∈ raw, c ∉ delimiters) : Suits .code k raw := by
  have htake : ∀ n, Place.code.after (raw.take n) = .code ∧ Place.code.fences (raw.take n) = [] :=
    fun n => read_plain fun c hc => h c (List.mem_of_mem_take hc)
  obtain ⟨hafter, hfences⟩ := read_plain h
  have hkind : Place.code.admits k = true ∧ Place.code.pass k = .code ∧ k.fences raw = [] ∧
      k.Holds .code ∧ k ≠ .opening ∧ k ≠ .closing ∧ k ≠ .lineEnd ∧ k ≠ .string ∧
      k ≠ .stringStart := by
    cases k <;>
      simp_all [Kind.isPlain, Place.admits, Place.pass, Kind.fences, Kind.Holds, Kind.isString]
  obtain ⟨hadmits, hpass, hnone, hholds, hopening, hclosing, hline, hstring, hstart⟩ := hkind
  refine ⟨hadmits, hafter.trans hpass.symm, hfences.trans hnone.symm, fun n _ => (htake n).2,
    fun n _ _ => ?_, fun hb => absurd hb hopening, fun hb => absurd hb hclosing,
    fun hb => absurd hb hline, fun hb => (hb.elim hstring hstart).elim⟩
  rw [(htake n).1]
  exact hholds

/-! ## Comments -/

theorem read_comment {s : Text} (h : '\n' ∉ s) :
    Place.comment.after s = .comment ∧ Place.comment.fences s = [] := by
  induction s with
  | nil => exact ⟨rfl, rfl⟩
  | cons c s ih =>
    have hc : c ≠ '\n' := by
      rintro rfl
      simp at h
    obtain ⟨ha, hf⟩ := ih fun hm => h (List.mem_cons_of_mem _ hm)
    constructor
    · rw [Place.after, Place.step, if_neg hc, ha]
    · rw [Place.fences, Place.step, if_neg hc, hf]
      rfl

theorem suits_comment {s : Text} (h : '\n' ∉ s) : Suits .code .comment (';' :: s) := by
  have hread : ∀ t : Text, '\n' ∉ t → Place.code.after (';' :: t) = .comment ∧
      Place.code.fences (';' :: t) = [] := fun t ht =>
    ⟨(read_comment ht).1, by rw [Place.fences]; exact (read_comment ht).2⟩
  have htake : ∀ n, '\n' ∉ s.take n := fun n hm => h (List.mem_of_mem_take hm)
  refine ⟨rfl, (hread s h).1, (hread s h).2, ?_, ?_, by simp, by simp, by simp, by simp⟩
  · intro n _
    cases n with
    | zero => rfl
    | succ n => exact (hread _ (htake n)).2
  · intro n _ hpos
    obtain ⟨m, rfl⟩ := Nat.exists_eq_add_one.2 hpos
    rw [List.take_succ_cons, (hread _ (htake m)).1]
    rfl

/-! ## Brackets -/

theorem reads_anyOf {texts : List String} {s : Text} (h : (anyOf texts).Reads s) :
    s ∈ texts.map String.toList := by
  obtain ⟨p, hp, hs⟩ := reads_oneOf h
  obtain ⟨t, ht, rfl⟩ := List.mem_map.1 hp
  rw [reads_literal hs]
  exact List.mem_map_of_mem ht

theorem suits_of_mem {k : Kind} {raws : List Text}
    (h : ∀ raw ∈ raws, Place.code.admits k = true ∧ Place.code.after raw = Place.code.pass k ∧
      Place.code.fences raw = k.fences raw ∧
      (∀ n < raw.length, Place.code.fences (raw.take n) = [] ∧
        Place.code.after (raw.take n) = .code) ∧
      (k = .opening → raw ∈ Bracket.openers) ∧ (k = .closing → raw ∈ Bracket.closers))
    (hholds : k.Holds .code) (hk : k ≠ .lineEnd) {raw : Text} (hraw : raw ∈ raws) :
    Suits .code k raw := by
  obtain ⟨h₁, h₂, h₃, h₄, h₅, h₆⟩ := h raw hraw
  refine ⟨h₁, h₂, h₃, fun n hn => (h₄ n hn).1, fun n hn _ => ?_, h₅, h₆, fun hl => absurd hl hk, ?_⟩
  · rw [(h₄ n hn).2]
    exact hholds
  · rintro (rfl | rfl) <;> simp [Kind.Holds, Kind.isString] at hholds

theorem suits_opening {raw : Text}
    (h : (anyOf ["(", "[", "\x7b", "#(", "#?(", "#\x7b", "#?@("]).Reads raw) :
    Suits .code .opening raw :=
  suits_of_mem (by decide +kernel) ⟨by decide, rfl⟩ (by decide) (reads_anyOf h)

theorem suits_closing {raw : Text} (h : (anyOf [")", "]", "\x7d"]).Reads raw) :
    Suits .code .closing raw :=
  suits_of_mem (by decide +kernel) ⟨by decide, rfl⟩ (by decide) (reads_anyOf h)

/-! ## Strings -/

structure Enclosed (s : Text) : Prop where
  after : Place.string.after s = .string
  fences : Place.string.fences s = []
  part : ∀ n, Place.string.after (s.take n) = .string ∨ Place.string.after (s.take n) = .escape

theorem enclosed_nil : Enclosed [] := ⟨rfl, rfl, fun _ => by simp⟩

theorem Enclosed.cons {c : Char} {s : Text} (h : Enclosed s) (hq : c ≠ '"') (hb : c ≠ '\\') :
    Enclosed (c :: s) := by
  have hstep : Place.string.step c = .string := by simp [Place.step, hq, hb]
  refine ⟨?_, ?_, fun n => ?_⟩
  · rw [Place.after, hstep, h.after]
  · rw [Place.fences, hstep, h.fences]
    rfl
  · cases n with
    | zero => exact Or.inl rfl
    | succ n =>
      rw [List.take_succ_cons, Place.after, hstep]
      exact h.part n

theorem Enclosed.escaped {s : Text} (h : Enclosed s) (c : Char) : Enclosed ('\\' :: c :: s) := by
  refine ⟨h.after, ?_, fun n => ?_⟩
  · rw [Place.fences, Place.fences]
    exact h.fences
  · rcases n with _ | _ | n
    · exact Or.inl rfl
    · exact Or.inr rfl
    · exact h.part n

theorem enclosed_of_reads {s : Text} (h : stringChars.Reads s) : Enclosed s := by
  have go : ∀ {p : Pattern} {s : Text}, p.Reads s → p = stringChars → Enclosed s := by
    intro p s hp
    induction hp with
    | done => exact fun _ => enclosed_nil
    | @again g p s t hs _ _ ih =>
      intro he
      have ht := ih he
      obtain ⟨-, rfl⟩ := Pattern.further.inj he
      cases hs with
      | left hl =>
        cases hl with
        | one hk =>
          simp only [CharSet.contains, CharSet.contains_ofList] at hk
          exact ht.cons (by rintro rfl; simp at hk) (by rintro rfl; simp at hk)
      | right hr =>
        obtain ⟨u, v, rfl, hu, hv⟩ := reads_seq.1 hr
        cases hv
        rw [reads_char.1 hu]
        exact ht.escaped _
    | _ => simp [stringChars, Pattern.star, nullable]
  exact go h rfl

theorem Enclosed.take {s : Text} (h : Enclosed s) (n : Nat) :
    Place.string.fences (s.take n) = [] := by
  have hs := h.fences
  rw [← List.take_append_drop n s] at hs
  exact Place.fences_eq_nil hs

/-- In a token that is read from inside a string, possibly to its end. -/
theorem suits_inside {k : Kind} {s tail : Text} (h : Enclosed s)
    (hk : k = .stringMiddle ∧ tail = [] ∨ k = .stringEnd ∧ tail = ['"']) :
    Suits .string k (s ++ tail) := by
  have hpart : ∀ n < (s ++ tail).length, Place.string.fences ((s ++ tail).take n) = [] ∧
      (Place.string.after ((s ++ tail).take n) = .string ∨
        Place.string.after ((s ++ tail).take n) = .escape) := by
    intro n hn
    have hle : n ≤ s.length := by
      rcases hk with ⟨-, rfl⟩ | ⟨-, rfl⟩
      · rw [List.append_nil] at hn
        omega
      · simp only [List.length_append, List.length_singleton] at hn
        omega
    rw [List.take_append_of_le_length hle]
    exact ⟨h.take n, h.part n⟩
  have hstring : k.isString = true := by
    rcases hk with ⟨rfl, -⟩ | ⟨rfl, -⟩ <;> rfl
  refine ⟨?_, ?_, ?_, fun n hn => (hpart n hn).1, fun n hn _ => ?_, ?_, ?_, ?_, ?_⟩
  · rcases hk with ⟨rfl, -⟩ | ⟨rfl, -⟩ <;> rfl
  · rw [Place.after_append, h.after]
    rcases hk with ⟨rfl, rfl⟩ | ⟨rfl, rfl⟩ <;> rfl
  · rw [Place.fences_append, h.fences, h.after]
    rcases hk with ⟨rfl, rfl⟩ | ⟨rfl, rfl⟩ <;> rfl
  · rcases (hpart n hn).2 with he | he <;> rw [he] <;> exact hstring
  · rcases hk with ⟨rfl, -⟩ | ⟨rfl, -⟩ <;> simp
  · rcases hk with ⟨rfl, -⟩ | ⟨rfl, -⟩ <;> simp
  · rcases hk with ⟨rfl, -⟩ | ⟨rfl, -⟩ <;> simp
  · rcases hk with ⟨rfl, -⟩ | ⟨rfl, -⟩ <;> simp

/-- In a token that starts with the opening quote of a string. -/
theorem suits_quoted {k : Kind} {s tail : Text} (h : Enclosed s)
    (hk : k = .stringStart ∧ tail = [] ∨ k = .string ∧ tail = ['"']) :
    Suits .code k ('"' :: (s ++ tail)) := by
  have hpart : ∀ n < ('"' :: (s ++ tail)).length, 0 < n →
      Place.code.fences (('"' :: (s ++ tail)).take n) = [] ∧
      (Place.code.after (('"' :: (s ++ tail)).take n) = .string ∨
        Place.code.after (('"' :: (s ++ tail)).take n) = .escape) := by
    intro n hn hpos
    obtain ⟨m, rfl⟩ := Nat.exists_eq_add_one.2 hpos
    have hle : m ≤ s.length := by
      rcases hk with ⟨-, rfl⟩ | ⟨-, rfl⟩
      · simp only [List.append_nil, List.length_cons] at hn
        omega
      · simp only [List.length_cons, List.length_append, List.length_nil] at hn
        omega
    rw [List.take_succ_cons, List.take_append_of_le_length hle]
    exact ⟨h.take m, h.part m⟩
  have hstring : k.isString = true := by
    rcases hk with ⟨rfl, -⟩ | ⟨rfl, -⟩ <;> rfl
  refine ⟨?_, ?_, ?_, fun n hn => ?_, fun n hn hpos => ?_, ?_, ?_, ?_, fun _ => ⟨_, rfl⟩⟩
  · rcases hk with ⟨rfl, -⟩ | ⟨rfl, -⟩ <;> rfl
  · show Place.string.after (s ++ tail) = _
    rw [Place.after_append, h.after]
    rcases hk with ⟨rfl, rfl⟩ | ⟨rfl, rfl⟩ <;> rfl
  · show Place.string.fences (s ++ tail) = _
    rw [Place.fences_append, h.fences, h.after]
    rcases hk with ⟨rfl, rfl⟩ | ⟨rfl, rfl⟩ <;> rfl
  · cases n with
    | zero => rfl
    | succ n => exact (hpart _ hn (Nat.succ_pos n)).1
  · rcases (hpart n hn hpos).2 with he | he <;> rw [he] <;> exact hstring
  · rcases hk with ⟨rfl, -⟩ | ⟨rfl, -⟩ <;> simp
  · rcases hk with ⟨rfl, -⟩ | ⟨rfl, -⟩ <;> simp
  · rcases hk with ⟨rfl, -⟩ | ⟨rfl, -⟩ <;> simp

end StructEdit
