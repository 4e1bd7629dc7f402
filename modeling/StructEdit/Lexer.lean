import StructEdit.Pattern.Basic
import StructEdit.Text.Quoted
import StructEdit.Token

/-!
# Lexing with a grammar

A grammar is a list of terminals. At each place every terminal offers its
preferred match, the longest offer wins, and of equally long ones the terminal
that stands first. Matches that read nothing do not count.

A lexer remembers its source, what is left of it, and the column reached. It can
go on with another grammar, and it can give up and take the rest as junk.

Of a pattern a lexer asks nothing but the length of its match at the start of a text. So
the terminals may be of any type that gives one, and are patterns where nothing else is said.
-/
namespace StructEdit

/-- What matches at the start of a text, or does not. A match may read nothing, and it reads no
more than there is. -/
class Matcher (P : Type) where
  /-- The number of characters that the match reads. -/
  length? : P → Text → Option Nat
  length?_le {p : P} {s : Text} {n : Nat} : length? p s = some n → n ≤ s.length

instance : Matcher Pattern := ⟨Pattern.matchLength?, Pattern.matchLength?_le⟩

theorem Matcher.length?_pattern (p : Pattern) (s : Text) :
    Matcher.length? p s = p.matchLength? s := rfl

structure Terminal (P : Type := Pattern) where
  pattern : P
  kind : Kind
  deriving DecidableEq, Repr

abbrev Grammar (P : Type := Pattern) := List (Terminal P)

namespace Grammar
variable {P : Type} [Matcher P]

/-- The better of the best offer so far and the offer of `t`: a later one has to be longer. -/
def better (s : Text) (best : Option (Kind × Nat)) (t : Terminal P) : Option (Kind × Nat) :=
  match Matcher.length? t.pattern s with
  | none => best
  | some n => if (best.map Prod.snd).getD 0 < n then some (t.kind, n) else best

/-- The kind and length of the longest non-empty match at the start of `s`. -/
def longest? (g : Grammar P) (s : Text) : Option (Kind × Nat) :=
  g.foldl (better s) none

/-- A best offer reads something, and no more than there is. -/
def Fits (s : Text) (best : Option (Kind × Nat)) : Prop :=
  ∀ k n, best = some (k, n) → 0 < n ∧ n ≤ s.length

theorem fits_better {s : Text} {best : Option (Kind × Nat)} (h : Fits s best) (t : Terminal P) :
    Fits s (better s best t) := by
  unfold better
  split
  · exact h
  · rename_i n hn
    split
    · rename_i hlt
      intro k m hm
      obtain ⟨-, rfl⟩ := Prod.mk.inj (Option.some.inj hm)
      exact ⟨Nat.zero_lt_of_lt hlt, Matcher.length?_le hn⟩
    · exact h

theorem fits_longest? (g : Grammar P) (s : Text) : Fits s (g.longest? s) := by
  have go : ∀ (ts : List (Terminal P)) (best : Option (Kind × Nat)), Fits s best →
      Fits s (ts.foldl (better s) best) := by
    intro ts
    induction ts with
    | nil => exact fun _ h => h
    | cons t ts ih => exact fun _ h => ih _ (fits_better h t)
  exact go g none (fun _ _ h => by simp at h)

end Grammar

structure Lexer (P : Type := Pattern) where
  source : Text
  /-- What is left to read. -/
  rest : Text
  /-- The column of the next token. -/
  column : Nat
  grammar : Grammar P

structure LexError where
  column : Nat
  line : Text
  deriving DecidableEq, Repr

def LexError.message (e : LexError) : String :=
  "unexpected character at " ++ toString e.column ++ ": " ++ String.ofList (Text.quoted e.line)

namespace Lexer
variable {P : Type}

def new (g : Grammar P) (source : Text) : Lexer P := ⟨source, source, 0, g⟩

def atEnd (x : Lexer P) : Bool := x.rest.isEmpty

/-- Goes on from the same place with another grammar. -/
def switch (x : Lexer P) (g : Grammar P) : Lexer P := { x with grammar := g }

/-- The token of kind `k` that reads the next `n` characters, and the lexer after it. -/
def take (x : Lexer P) (k : Kind) (n : Nat) : Token × Lexer P :=
  (⟨k, x.rest.take n, x.column, .code⟩,
   { x with rest := x.rest.drop n, column := x.column + (x.rest.take n).length })

theorem rest_take_lt (x : Lexer P) (k : Kind) {n : Nat} (h₀ : 0 < n) (h₁ : n ≤ x.rest.length) :
    (x.take k n).2.rest.length < x.rest.length := by
  simp only [take, List.length_drop]
  omega

/-- All that is left as one token of junk, or `none` at the end of the source. -/
def skipRest (x : Lexer P) : Option (Token × Lexer P) :=
  if x.atEnd then none else some (x.take .junk x.rest.length)

theorem rest_skipRest_lt {x y : Lexer P} {t : Token} (h : x.skipRest = some (t, y)) :
    y.rest.length < x.rest.length := by
  unfold skipRest at h
  split at h
  · simp at h
  · rename_i he
    have h₀ : 0 < x.rest.length := by
      rw [List.length_pos_iff]
      simpa [atEnd] using he
    have hy : (x.take .junk x.rest.length).2 = y := congrArg Prod.snd (Option.some.inj h)
    exact hy ▸ x.rest_take_lt .junk h₀ (Nat.le_refl _)

variable [Matcher P]

/-- The next token, or `none` at the end of the source. -/
def scan (x : Lexer P) : Except LexError (Option (Token × Lexer P)) :=
  match x.grammar.longest? x.rest with
  | some (k, n) => .ok (some (x.take k n))
  | none => if x.atEnd then .ok none else .error ⟨x.column, x.source⟩

theorem rest_scan_lt {x y : Lexer P} {t : Token} (h : x.scan = .ok (some (t, y))) :
    y.rest.length < x.rest.length := by
  unfold scan at h
  split at h
  · rename_i k n hn
    obtain ⟨h₀, h₁⟩ := x.grammar.fits_longest? x.rest k n hn
    simp only [Except.ok.injEq, Option.some.injEq] at h
    have hy : (x.take k n).2 = y := congrArg Prod.snd h
    exact hy ▸ x.rest_take_lt k h₀ h₁
  · split at h <;> simp at h

end Lexer
end StructEdit
