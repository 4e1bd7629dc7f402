import StructEdit.Proofs.Balance.Balanced

/-!
# Where a lexer gives up

A line is read by one call of the lexer after the other, and a call that fails makes the rest
of the line junk. In code no call fails, on whatever text, since every character but the break is
read as junk if as nothing else, and the break is a blank. In a string the text is read up to
its closing quote or its end, so a call fails only on a single backslash, which is then the last
character of the line. This is the one way a call fails, and the call behind it finds nothing more.
-/
namespace StructEdit
open Pattern Scan

namespace Lexer

/-- The calls that read a line: the mode and the lexer at each of them, the last one at the end. -/
def calls (mode : Mode) (x : Lexer) : List (Mode × Lexer) :=
  match h : x.scanOrSkip with
  | none => [(mode, x)]
  | some (t, y) =>
    have := rest_scanOrSkip_lt h
    let next := mode.after t.kind
    (mode, x) :: calls next (y.switch next.grammar)
termination_by x.rest.length

/-- The token that a call adds to the line. -/
def added (c : Mode × Lexer) : Token :=
  match c.2.scanOrSkip with
  | none => .lineEnd c.2.column c.1
  | some (t, _) => { t with mode := c.1.after t.kind }

/-- Whether a call reports an error. -/
def fails (x : Lexer) : Bool := !x.scan.isOk

theorem calls_of_none {mode : Mode} {x : Lexer} (h : x.scanOrSkip = none) :
    x.calls mode = [(mode, x)] := by
  unfold calls
  split
  · rfl
  · simp_all

theorem calls_of_some {mode : Mode} {x y : Lexer} {t : Token} (h : x.scanOrSkip = some (t, y)) :
    x.calls mode = (mode, x) ::
      (y.switch (mode.after t.kind).grammar).calls (mode.after t.kind) := by
  rw [calls]
  split
  · simp_all
  · rename_i h'
    obtain ⟨rfl, rfl⟩ := Prod.mk.inj (Option.some.inj (h.symm.trans h'))
    rfl

/-- The tokens of a line are those that the calls add. -/
theorem tokens_eq_added (mode : Mode) (x : Lexer) :
    (x.tokens mode).1 = (x.calls mode).map added := by
  fun_induction Lexer.tokens mode x with
  | case1 mode x hnone =>
    rw [calls_of_none hnone]
    simp [added, hnone]
  | case2 mode x t y hsome hlt next ts last hrec ih =>
    rw [hrec] at ih
    rw [calls_of_some hsome, List.map_cons, ← ih]
    simp [added, hsome, next]

structure Along (line : Text) (mode : Mode) (x : Lexer) : Prop where
  grammar : x.grammar = mode.grammar
  source : x.source = line
  rest : x.rest <:+ line
  column : x.column + x.rest.length = line.length

theorem along_new (mode : Mode) (line : Text) : Along line mode (new mode.grammar line) :=
  ⟨rfl, rfl, List.suffix_refl line, Nat.zero_add _⟩

variable {line : Text} {mode : Mode} {x : Lexer}

theorem Along.not_mem (h : Along line mode x) (hline : '\n' ∉ line) : '\n' ∉ x.rest :=
  fun hm => hline (h.rest.subset hm)

/-- One call keeps the lexer on its way. -/
theorem Along.next (h : Along line mode x) {t : Token} {y : Lexer}
    (hscan : x.scanOrSkip = some (t, y)) :
    Along line (mode.after t.kind) (y.switch (mode.after t.kind).grammar) := by
  rw [scanOrSkip_eq h.grammar, Option.map_eq_some_iff] at hscan
  obtain ⟨⟨k, n⟩, hread, htake⟩ := hscan
  obtain ⟨-, hle⟩ := Mode.read?_fits hread
  obtain ⟨rfl, rfl⟩ := Prod.mk.inj htake
  refine ⟨rfl, h.source, (List.drop_suffix n x.rest).trans h.rest, ?_⟩
  have hcolumn := h.column
  simp only [switch, List.length_take, List.length_drop]
  omega

theorem Along.calls (h : Along line mode x) : ∀ c ∈ x.calls mode, Along line c.1 c.2 := by
  fun_induction Lexer.calls mode x with
  | case1 => simpa using h
  | case2 mode x t y hsome hlt next ih => exact List.forall_mem_cons.2 ⟨h, ih (h.next hsome)⟩

/-! ## Failing calls -/

/-- In code no call fails, breaks or not. -/
theorem exists_scan_of_code (h : x.grammar = codeGrammar) : ∃ r, x.scan = .ok r := by
  unfold scan
  rw [h]
  cases hl : codeGrammar.longest? x.rest with
  | some r => exact ⟨_, rfl⟩
  | none =>
    have hend : x.atEnd = true := by
      refine Decidable.byContradiction fun hne => ?_
      obtain ⟨r, hr⟩ := exists_longest?_code (s := x.rest) (by simpa [atEnd] using hne)
      cases hl.symm.trans hr
    exact ⟨none, if_pos hend⟩

theorem scan_error_of_string (h : x.grammar = stringGrammar) (hn : '\n' ∉ x.rest)
    (e : LexError) : x.scan = .error e ↔ x.rest = ['\\'] ∧ e = ⟨x.column, x.source⟩ := by
  unfold scan
  rw [h]
  cases hl : stringGrammar.longest? x.rest with
  | some r =>
    have hne : x.rest ≠ ['\\'] := fun he => by
      rw [(longest?_string_eq_none hn).2 (Or.inr he)] at hl
      cases hl
    simp [hne]
  | none =>
    rcases (longest?_string_eq_none hn).1 hl with he | he
    · simp [atEnd, he]
    · simp [atEnd, he, eq_comm]

/-- A call fails on a last backslash in a string and nowhere else. -/
theorem Along.scan_error_iff (h : Along line mode x) (hline : '\n' ∉ line) (e : LexError) :
    x.scan = .error e ↔
      x.grammar = stringGrammar ∧ x.rest = ['\\'] ∧ e = ⟨line.length - 1, line⟩ := by
  have hcolumn := h.column
  cases mode with
  | code =>
    obtain ⟨r, hr⟩ := exists_scan_of_code h.grammar
    have hne : x.grammar ≠ stringGrammar := by
      rw [h.grammar]
      decide
    simp [hr, hne]
  | string =>
    rw [scan_error_of_string h.grammar (h.not_mem hline), h.source]
    constructor
    · rintro ⟨hrest, rfl⟩
      rw [hrest, List.length_singleton] at hcolumn
      exact ⟨h.grammar, hrest, by rw [← hcolumn, Nat.add_sub_cancel]⟩
    · rintro ⟨-, hrest, rfl⟩
      rw [hrest, List.length_singleton] at hcolumn
      exact ⟨hrest, by rw [← hcolumn, Nat.add_sub_cancel]⟩

theorem Along.fails_iff (h : Along line mode x) (hline : '\n' ∉ line) :
    x.fails = true ↔ mode = .string ∧ x.rest = ['\\'] := by
  have hexists : x.fails = true ↔ ∃ e, x.scan = .error e := by
    unfold fails
    cases x.scan <;> simp [Except.isOk, Except.toBool]
  have hgrammar : x.grammar = stringGrammar ↔ mode = .string := by
    rw [h.grammar]
    cases mode <;> decide
  simp only [hexists, h.scan_error_iff hline, hgrammar, exists_and_left, exists_eq, and_true]

/-- The mode at the last call is the one that the next line starts in. -/
theorem last_calls (mode : Mode) (x : Lexer) :
    (x.calls mode).getLast?.map Prod.fst = some (x.tokens mode).2 := by
  fun_induction Lexer.tokens mode x with
  | case1 mode x hnone => simp [calls_of_none hnone]
  | case2 mode x t y hsome hlt next ts last hrec ih =>
    rw [hrec] at ih
    rw [calls_of_some hsome, List.getLast?_cons, ← ih]
    cases hl : ((y.switch next.grammar).calls next).getLast? with
    | none => simp [hl] at ih
    | some c => simp

/-- A call that fails is the last one but one, and the line ends in the string. -/
theorem Along.calls_of_fails (h : Along line mode x) (hline : '\n' ∉ line)
    (hfails : x.fails = true) :
    ∃ y : Lexer, y.fails = false ∧ x.calls mode = [(.string, x), (.string, y)] := by
  obtain ⟨rfl, hrest⟩ := (h.fails_iff hline).1 hfails
  have hscan : x.scanOrSkip = some (x.take .junk 1) := by
    rw [scanOrSkip_eq h.grammar, hrest]
    rfl
  have hend : ((x.take .junk 1).2.switch stringGrammar).rest = [] := by simp [switch, take, hrest]
  have hgrammar : ((x.take .junk 1).2.switch stringGrammar).grammar = Mode.string.grammar := rfl
  have hnone : ((x.take .junk 1).2.switch stringGrammar).scanOrSkip = none := by
    rw [scanOrSkip_eq hgrammar, hend]
    rfl
  refine ⟨(x.take .junk 1).2.switch stringGrammar, ?_, ?_⟩
  · refine Bool.eq_false_iff.2 fun hf => ?_
    cases hend.symm.trans (((h.next hscan).fails_iff hline).1 hf).2
  · rw [calls_of_some hscan]
    exact congrArg _ (calls_of_none hnone)

/-- Either no call fails, or the last one but one does. -/
theorem Along.calls_cases (h : Along line mode x) (hline : '\n' ∉ line) :
    (∀ c ∈ x.calls mode, c.2.fails = false) ∨
      ∃ front, ∃ y z : Lexer, x.calls mode = front ++ [(.string, y), (.string, z)] ∧
        (∀ c ∈ front, c.2.fails = false) ∧ z.fails = false := by
  fun_induction Lexer.calls mode x with
  | case1 mode x hnone =>
    refine Or.inl (List.forall_mem_singleton.2 (Bool.eq_false_iff.2 fun hf => ?_))
    obtain ⟨y, -, hcalls⟩ := h.calls_of_fails hline hf
    simp [calls_of_none hnone] at hcalls
  | case2 mode x t y hsome hlt next ih =>
    by_cases hf : x.fails = true
    · obtain ⟨z, hz, hcalls⟩ := h.calls_of_fails hline hf
      rw [calls_of_some hsome] at hcalls
      exact Or.inr ⟨[], x, z, hcalls, by simp, hz⟩
    · have hx : x.fails = false := Bool.eq_false_iff.2 hf
      rcases ih (h.next hsome) with hall | ⟨front, u, v, hcalls, hfront, hv⟩
      · exact Or.inl (List.forall_mem_cons.2 ⟨hx, hall⟩)
      · exact Or.inr ⟨(mode, x) :: front, u, v, congrArg _ hcalls,
          List.forall_mem_cons.2 ⟨hx, hfront⟩, hv⟩

theorem Along.count_fails_le (h : Along line mode x) (hline : '\n' ∉ line) :
    (x.calls mode).countP (fun c => c.2.fails) ≤ 1 := by
  have hzero : ∀ cs : List (Mode × Lexer), (∀ c ∈ cs, c.2.fails = false) →
      cs.countP (fun c => c.2.fails) = 0 := fun cs hcs =>
    List.countP_eq_zero.2 fun c hc => by simp [hcs c hc]
  rcases h.calls_cases hline with hall | ⟨front, y, z, hcalls, hfront, hz⟩
  · rw [hzero _ hall]
    exact Nat.zero_le 1
  · rw [hcalls, List.countP_append, hzero front hfront, List.countP_cons,
      hzero _ (List.forall_mem_singleton.2 hz)]
    split <;> omega

theorem Along.stop_of_fails (h : Along line mode x) (hline : '\n' ∉ line) {c : Mode × Lexer}
    (hc : c ∈ x.calls mode) (hfails : c.2.fails = true) : (x.tokens mode).2 = .string := by
  rcases h.calls_cases hline with hall | ⟨front, y, z, hcalls, -⟩
  · cases (hall c hc).symm.trans hfails
  · have hlast := last_calls mode x
    rw [hcalls] at hlast
    simpa using hlast.symm

/-- What a call adds as junk, the grammar has read as junk or has not read at all. -/
theorem Along.read?_of_junk (h : Along line mode x) (hjunk : (added (mode, x)).kind = .junk) :
    ∃ n, mode.read? x.rest = some (.junk, n) ∧
      added (mode, x) = ⟨.junk, x.rest.take n, x.column, mode⟩ := by
  have hscan := scanOrSkip_eq h.grammar
  cases hread : mode.read? x.rest with
  | none =>
    rw [hread, Option.map_none] at hscan
    simp [added, hscan] at hjunk
  | some r =>
    obtain ⟨k, n⟩ := r
    rw [hread, Option.map_some] at hscan
    obtain rfl : k = .junk := by simpa [added, hscan, take] using hjunk
    exact ⟨n, rfl, by simp [added, hscan, take, Mode.after]⟩

/-- Junk in code is an at sign. -/
theorem Along.junk_code (h : Along line .code x) (hjunk : (added (.code, x)).kind = .junk) :
    (added (.code, x)).raw = ['@'] := by
  obtain ⟨n, hread, hadded⟩ := h.read?_of_junk hjunk
  have hlongest := longest?_of_code hread
  obtain rfl := length_of_junk_code hlongest
  obtain ⟨c, s, hrest⟩ : ∃ c s, x.rest = c :: s := by
    refine List.exists_cons_of_ne_nil fun hnil => ?_
    have := (Mode.read?_fits hread).2
    simp [hnil] at this
  rw [hrest] at hlongest
  rw [hadded, hrest, junk_of_code hlongest]
  rfl

/-- Junk in a string is a backslash that a call has failed on. -/
theorem Along.junk_string (h : Along line .string x) (hline : '\n' ∉ line)
    (hjunk : (added (.string, x)).kind = .junk) :
    x.fails = true ∧ (added (.string, x)).raw = ['\\'] ∧
      (added (.string, x)).offset + 1 = line.length := by
  obtain ⟨n, hread, hadded⟩ := h.read?_of_junk hjunk
  have hlen : (x.rest.take n).length = n := List.length_take_of_le (Mode.read?_fits hread).2
  have hraw : x.rest.take n = ['\\'] ∧ x.rest.drop n = [] := by
    refine junk_of_string ?_ ?_ ?_
    · rw [← List.length_pos_iff, hlen]
      exact (Mode.read?_fits hread).1
    · rw [List.take_append_drop]
      exact h.not_mem hline
    · rw [List.take_append_drop, hlen]
      exact hread
  have hrest : x.rest = ['\\'] := by
    rw [← List.take_append_drop n x.rest, hraw.1, hraw.2]
    rfl
  have hcolumn := h.column
  rw [hrest, List.length_singleton] at hcolumn
  rw [hadded]
  exact ⟨(h.fails_iff hline).2 ⟨rfl, hrest⟩, hraw.1, hcolumn⟩

end Lexer

/-- The errors of a line without breaks are confined. A call fails just where it reads a string of
which a single backslash is left, and reports the last column of the line; at most one call of a
line fails; a token is junk only as an at sign in code or as that backslash, in which case the
line ends in the string. In code no call fails on any text. -/
theorem scanLine_errors (line : Text) (mode : Mode) (hline : '\n' ∉ line) :
    let calls := (Lexer.new mode.grammar line).calls mode
    (scanLine line mode).1 = calls.map Lexer.added ∧
    (∀ c ∈ calls, ∀ e, c.2.scan = .error e ↔
      c.2.grammar = stringGrammar ∧ c.2.rest = ['\\'] ∧ e = ⟨line.length - 1, line⟩) ∧
    calls.countP (fun c => c.2.fails) ≤ 1 ∧
    (∀ c ∈ calls, (Lexer.added c).kind = .junk →
      c.2.grammar = codeGrammar ∧ (Lexer.added c).raw = ['@'] ∨
      c.2.fails = true ∧ (Lexer.added c).raw = ['\\'] ∧
        (Lexer.added c).offset + 1 = line.length ∧ (scanLine line mode).2 = .string) ∧
    ∀ x : Lexer, x.grammar = codeGrammar → ∃ r, x.scan = .ok r := by
  intro calls
  have hnew := Lexer.along_new mode line
  have halong : ∀ c ∈ calls, Lexer.Along line c.1 c.2 := hnew.calls
  refine ⟨Lexer.tokens_eq_added mode _, fun c hc e => (halong c hc).scan_error_iff hline e,
    hnew.count_fails_le hline, fun c hc hjunk => ?_, fun x hx => Lexer.exists_scan_of_code hx⟩
  obtain ⟨m, x⟩ := c
  cases m with
  | code => exact Or.inl ⟨(halong _ hc).grammar, (halong _ hc).junk_code hjunk⟩
  | string =>
    obtain ⟨hfails, hraw, hoffset⟩ := (halong _ hc).junk_string hline hjunk
    exact Or.inr ⟨hfails, hraw, hoffset, hnew.stop_of_fails hline hc hfails⟩

/-- An at sign in code, and a string that ends in a backslash. -/
theorem scanLine_errors_backslash :
    ((scanLine ['@', '"', '\\'] .code).1.map fun t => (t.kind, t.raw)) =
        [(.junk, ['@']), (.stringStart, ['"']), (.junk, ['\\']), (.lineEnd, ['\n'])] ∧
      ((Lexer.new codeGrammar ['@', '"', '\\']).calls .code).countP (fun c => c.2.fails) ≤ 1 := by
  have h := scanLine_errors ['@', '"', '\\'] .code (by decide)
  exact ⟨by decide +kernel, h.2.2.1⟩

end StructEdit
