import StructEdit.Proofs.Checked.Lexer
import StructEdit.Proofs.Scan.Munch

/-!
# What a lexer conserves

A lexer can be asked for the next token, for all that is left as one token, and to go on with
another grammar, in any order. The tokens that it has returned and what it has left always make up
the source. The column counts the characters of these tokens, and each of them keeps the column that
was reached before it.

This is so for every grammar, of whatever terminals, also where several match the same text or one
matches without reading anything. Which token comes next is decided by the longest match, and where
nothing is read the lexer stays as it is.
-/
namespace StructEdit

/-- What a lexer can be asked for. -/
inductive LexerOp (P : Type) where
  | scan
  | skipRest
  | switch (g : Grammar P)

namespace LexerOp
variable {P : Type}

/-- The grammar that is in use after the operations. -/
def current (g : Grammar P) : List (LexerOp P) → Grammar P
  | [] => g
  | switch g' :: ops => current g' ops
  | _ :: ops => current g ops

variable [Matcher P]

/-- Carries out an operation on a lexer, with the tokens that it has returned so far. -/
def apply (r : List Token × Lexer P) : LexerOp P → List Token × Lexer P
  | scan =>
    match r.2.scan with
    | .ok (some (t, y)) => (r.1 ++ [t], y)
    | _ => r
  | skipRest =>
    match r.2.skipRest with
    | some (t, y) => (r.1 ++ [t], y)
    | none => r
  | switch g => (r.1, r.2.switch g)

def runAll (ops : List (LexerOp P)) (r : List Token × Lexer P) : List Token × Lexer P :=
  ops.foldl apply r

/-- The same on a lexer that keeps its place in bytes. -/
def byteApply (r : List Token × Checked.ByteLexer P) :
    LexerOp P → Option (List Token × Checked.ByteLexer P)
  | scan => do
    match ← r.2.scan with
    | .ok (some (t, y)) => return (r.1 ++ [t], y)
    | _ => return r
  | skipRest => do
    match ← r.2.skipRest with
    | some (t, y) => return (r.1 ++ [t], y)
    | none => return r
  | switch g => return (r.1, r.2.switch g)

def byteRunAll (ops : List (LexerOp P)) (r : List Token × Checked.ByteLexer P) :
    Option (List Token × Checked.ByteLexer P) :=
  ops.foldlM byteApply r

end LexerOp

namespace Lexer
variable {P : Type}

structure Conserves (source : Text) (r : List Token × Lexer P) : Prop where
  source_eq : r.2.source = source
  raws : r.1.flatMap Token.raw ++ r.2.rest = source
  column : r.2.column = (r.1.flatMap Token.raw).length
  /-- A token starts where the tokens before it end. -/
  offset : ∀ front t back, r.1 = front ++ t :: back →
    t.offset = (front.flatMap Token.raw).length

variable {source : Text} {ts : List Token} {x : Lexer P}

theorem conserves_new (g : Grammar P) (source : Text) : Conserves source ([], new g source) :=
  ⟨rfl, rfl, rfl, by simp⟩

theorem Conserves.placed (h : Conserves source (ts, x)) : x.Placed where
  rest := by
    rw [h.source_eq, ← h.raws, h.column, List.drop_left]
  column := by
    rw [h.source_eq, ← h.raws, h.column, List.length_append]
    exact Nat.le_add_right _ _

theorem Conserves.take (h : Conserves source (ts, x)) (k : Kind) (n : Nat) :
    Conserves source (ts ++ [(x.take k n).1], (x.take k n).2) where
  source_eq := h.source_eq
  raws := by
    have hraws := h.raws
    simpa [Lexer.take] using hraws
  column := by
    have hcolumn : x.column = (ts.flatMap Token.raw).length := h.column
    simp only [Lexer.take, List.flatMap_append, List.length_append, List.flatMap_singleton, hcolumn]
  offset := by
    intro front t back hts
    rcases List.eq_nil_or_concat back with rfl | ⟨back, u, rfl⟩
    · obtain ⟨rfl, hlast⟩ := List.append_inj' hts rfl
      obtain rfl := (List.cons.inj hlast).1
      exact h.column
    · rw [List.concat_eq_append, ← List.cons_append, ← List.append_assoc] at hts
      exact h.offset front t back (List.append_inj' hts rfl).1

theorem Conserves.switch (h : Conserves source (ts, x)) (g : Grammar P) :
    Conserves source (ts, x.switch g) :=
  ⟨h.source_eq, h.raws, h.column, h.offset⟩

/-! ## Single operations -/

theorem skipRest_cases (x : Lexer P) :
    x.rest = [] ∧ x.skipRest = none ∨ x.skipRest = some (x.take .junk x.rest.length) := by
  unfold skipRest
  by_cases hend : x.atEnd = true
  · exact Or.inl ⟨List.isEmpty_iff.1 hend, if_pos hend⟩
  · exact Or.inr (if_neg hend)

variable [Matcher P]

/-- A token is returned where the grammar reads something: the longest match of its terminals. -/
theorem scan_eq_some {y : Lexer P} {t : Token} (h : x.scan = .ok (some (t, y))) :
    Grammar.Longest x.grammar x.rest t.kind t.raw.length ∧ (t, y) = x.take t.kind t.raw.length := by
  unfold scan at h
  split at h
  · rename_i k n hlongest
    have hn := (x.grammar.fits_longest? x.rest k n hlongest).2
    obtain ⟨rfl, rfl⟩ := Prod.mk.inj (Option.some.inj (Except.ok.inj h))
    have hlength : (x.rest.take n).length = n := List.length_take_of_le hn
    simp only [take, hlength, and_true]
    exact Grammar.longest_of_longest? hlongest
  · split at h <;> cases h

theorem exists_scan_iff :
    (∃ t y, x.scan = .ok (some (t, y))) ↔ x.grammar.Reads x.rest := by
  unfold scan
  cases hlongest : x.grammar.longest? x.rest with
  | none =>
    have hsilent := Grammar.longest?_eq_none_iff.1 hlongest
    refine iff_of_false ?_ hsilent
    rintro ⟨t, y, h⟩
    dsimp only at h
    split at h <;> cases h
  | some r =>
    exact iff_of_true ⟨_, _, rfl⟩ (Grammar.longest_of_longest? hlongest).reads

theorem scan_of_not_reads (h : ¬x.grammar.Reads x.rest) :
    x.scan = if x.rest = [] then .ok none else .error ⟨x.column, x.source⟩ := by
  simp only [scan, Grammar.longest?_eq_none_iff.2 h, atEnd, List.isEmpty_iff]

theorem rest_skipRest (r : List Token × Lexer P) :
    (LexerOp.apply r .skipRest).2.rest = [] := by
  rcases r.2.skipRest_cases with ⟨hend, hskip⟩ | hskip
  · simp only [LexerOp.apply, hskip, hend]
  · simp only [LexerOp.apply, hskip]
    exact List.drop_length

/-! ## Runs -/

theorem Conserves.apply {r : List Token × Lexer P} (h : Conserves source r) (op : LexerOp P) :
    Conserves source (op.apply r) := by
  obtain ⟨ts, x⟩ := r
  cases op with
  | scan =>
    simp only [LexerOp.apply]
    split
    · rename_i t y hscan
      have htake := (scan_eq_some hscan).2
      rw [(Prod.mk.inj htake).1, (Prod.mk.inj htake).2]
      exact h.take _ _
    · exact h
  | skipRest =>
    rcases x.skipRest_cases with ⟨-, hskip⟩ | hskip <;> simp only [LexerOp.apply, hskip]
    · exact h
    · exact h.take _ _
  | switch g => exact h.switch g

theorem Conserves.runAll {r : List Token × Lexer P} (h : Conserves source r)
    (ops : List (LexerOp P)) : Conserves source (LexerOp.runAll ops r) := by
  induction ops generalizing r with
  | nil => exact h
  | cons op ops ih => exact ih (h.apply op)

theorem grammar_apply (r : List Token × Lexer P) (op : LexerOp P) :
    (op.apply r).2.grammar = LexerOp.current r.2.grammar [op] := by
  cases op with
  | scan =>
    simp only [LexerOp.apply, LexerOp.current]
    split
    · rename_i t y hscan
      rw [(Prod.mk.inj (scan_eq_some hscan).2).2]
    · rfl
  | skipRest =>
    rcases r.2.skipRest_cases with ⟨-, hskip⟩ | hskip <;> simp only [LexerOp.apply, hskip]
    · rfl
    · rfl
  | switch g => rfl

theorem grammar_runAll (r : List Token × Lexer P) (ops : List (LexerOp P)) :
    (LexerOp.runAll ops r).2.grammar = LexerOp.current r.2.grammar ops := by
  induction ops generalizing r with
  | nil => rfl
  | cons op ops ih =>
    have hcurrent : LexerOp.current r.2.grammar (op :: ops) =
        LexerOp.current (LexerOp.current r.2.grammar [op]) ops := by
      cases op <;> rfl
    rw [hcurrent, ← grammar_apply]
    exact ih (op.apply r)

/-- With its place in bytes, a lexer goes along. -/
theorem Conserves.byteApply (h : Conserves source (ts, x)) (op : LexerOp P) :
    op.byteApply (ts, x.inBytes) = some ((op.apply (ts, x)).map id inBytes) := by
  cases op with
  | scan =>
    simp only [LexerOp.byteApply, LexerOp.apply, h.placed.scan_inBytes, Option.bind_eq_bind,
      Option.bind_some]
    rcases x.scan with e | _ | ⟨t, y⟩ <;> rfl
  | skipRest =>
    simp only [LexerOp.byteApply, LexerOp.apply, h.placed.skipRest_inBytes, Option.bind_eq_bind,
      Option.bind_some]
    rcases x.skipRest with _ | ⟨t, y⟩ <;> rfl
  | switch g => rfl

theorem Conserves.byteRunAll {r : List Token × Lexer P} (h : Conserves source r)
    (ops : List (LexerOp P)) :
    LexerOp.byteRunAll ops (r.map id inBytes) = some ((LexerOp.runAll ops r).map id inBytes) := by
  induction ops generalizing r with
  | nil => rfl
  | cons op ops ih =>
    have hop : op.byteApply (r.map id inBytes) = some ((op.apply r).map id inBytes) :=
      h.byteApply op
    rw [LexerOp.byteRunAll, List.foldlM_cons, hop, Option.bind_eq_bind, Option.bind_some]
    exact ih (h.apply op)

/-- The lexer conserves its source and takes the longest match, whatever it is asked for in whatever
order, and whatever the terminals of its grammars are. The tokens returned and what is left make up
the source, the column counts the characters of the tokens, and each token keeps the column before
it. The next token is there exactly when a terminal of the current grammar reads something, and it
is the longest match, of the kind of the first terminal that has it; otherwise the answer is the
end of the source or an error, and nothing changes. Behind a skip the lexer is at the end. All this
can be done with a place in bytes too, and no cut of the source then comes into the middle of a
character. -/
theorem munches_runAll (g : Grammar P) (source : Text) (ops : List (LexerOp P)) :
    let r := LexerOp.runAll ops ([], new g source)
    let current := LexerOp.current g ops
    r.1.flatMap Token.raw ++ r.2.rest = source ∧
    r.2.column = (r.1.flatMap Token.raw).length ∧
    (∀ front t back, r.1 = front ++ t :: back → t.offset = (front.flatMap Token.raw).length) ∧
    ((∃ t y, r.2.scan = .ok (some (t, y))) ↔
      ∃ u ∈ current, ∃ n, 0 < n ∧ Matcher.length? u.pattern r.2.rest = some n) ∧
    (∀ t y, r.2.scan = .ok (some (t, y)) →
      LexerOp.apply r .scan = (r.1 ++ [t], y) ∧
      (∃ front u back, current = front ++ u :: back ∧ u.kind = t.kind ∧
        Matcher.length? u.pattern r.2.rest = some t.raw.length ∧
        ∀ v ∈ front, ∀ m, Matcher.length? v.pattern r.2.rest = some m → m < t.raw.length) ∧
      ∀ u ∈ current, ∀ m, Matcher.length? u.pattern r.2.rest = some m → m ≤ t.raw.length) ∧
    ((¬∃ t y, r.2.scan = .ok (some (t, y))) →
      LexerOp.apply r .scan = r ∧
      r.2.scan = if r.2.rest = [] then .ok none else .error ⟨r.2.column, source⟩) ∧
    (LexerOp.apply r .skipRest).2.rest = [] ∧
    LexerOp.byteRunAll ops ([], .new g source) = some (r.1, r.2.inBytes) := by
  intro r current
  have hrun : Conserves source r := (conserves_new g source).runAll ops
  have hgrammar : r.2.grammar = current := grammar_runAll ([], new g source) ops
  have hexists := exists_scan_iff (x := r.2)
  refine ⟨hrun.raws, hrun.column, hrun.offset, ?_, ?_, ?_, rest_skipRest r, ?_⟩
  · rw [hexists, hgrammar]
    rfl
  · intro t y hscan
    have hlongest := (scan_eq_some hscan).1
    rw [hgrammar] at hlongest
    exact ⟨by simp only [LexerOp.apply, hscan], hlongest.first, hlongest.most⟩
  · intro hnone
    have hscan := scan_of_not_reads (mt hexists.2 hnone)
    rw [hrun.source_eq] at hscan
    refine ⟨?_, hscan⟩
    simp only [LexerOp.apply, hscan]
    split_ifs <;> rfl
  · have hbytes := (conserves_new g source).byteRunAll ops
    rwa [Prod.map, inBytes_new] at hbytes

/-- Two terminals that read as much, one that reads nothing, and what none of them reads. -/
example :
    let g : Grammar := [⟨.literal ['a', 'b'], .literal⟩, ⟨.plus (.one .dot), .symbol⟩,
      ⟨.star (.char 'c'), .keyword⟩]
    (LexerOp.runAll [.scan, .scan, .skipRest, .scan] ([], new g ['a', 'b', '\n', 'c'])).1.map
        (fun t => (t.kind, t.raw)) =
      [(.literal, ['a', 'b']), (.junk, ['\n', 'c'])] := by
  decide +kernel

end Lexer
end StructEdit
