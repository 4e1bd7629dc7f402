import StructEdit.Lexer
import StructEdit.Proofs.Text.Bytes

/-!
# A checked lexer

A lexer of the library holds what is left of its source and the column. This one holds its place in
the source as a number of bytes, measures the offers of the terminals in bytes, and cuts what is
left and what a token reads out of the UTF-8 form. A cut has no value where it would come into the
middle of a character.

The bytes in front of the place are the UTF-8 form of the characters in front of the column, a
longer offer has more bytes, and so no cut ever fails and the two lexers do the same.
-/
namespace StructEdit
open Text

namespace Checked
variable {P : Type}

structure ByteLexer (P : Type) where
  source : Text
  /-- The byte of the source that the next token starts with. -/
  place : Nat
  column : Nat
  grammar : Grammar P

namespace ByteLexer

def new (g : Grammar P) (source : Text) : ByteLexer P := ⟨source, 0, 0, g⟩

def switch (x : ByteLexer P) (g : Grammar P) : ByteLexer P := { x with grammar := g }

def rest? (x : ByteLexer P) : Option Text := cut? x.source x.place (utf8 x.source).length

def atEnd (x : ByteLexer P) : Bool := (utf8 x.source).length ≤ x.place

def skipRest (x : ByteLexer P) : Option (Option (Token × ByteLexer P)) :=
  if x.atEnd then return none
  else do
    let rest ← x.rest?
    return some (⟨.junk, rest, x.column, .code⟩,
      { x with place := (utf8 x.source).length, column := x.column + rest.length })

variable [Matcher P]

/-- The better of the best offer so far and the offer of `t`, both in bytes. -/
def better (s : Text) (best : Option (Kind × Nat)) (t : Terminal P) : Option (Kind × Nat) :=
  match Matcher.length? t.pattern s with
  | none => best
  | some n =>
    if (best.map Prod.snd).getD 0 < byteIndex s n then some (t.kind, byteIndex s n) else best

def scan (x : ByteLexer P) : Option (Except LexError (Option (Token × ByteLexer P))) := do
  let rest ← x.rest?
  match x.grammar.foldl (better rest) none with
  | some (k, n) =>
    let raw ← cut? rest 0 n
    return .ok (some (⟨k, raw, x.column, .code⟩,
      { x with place := x.place + n, column := x.column + raw.length }))
  | none => return if x.atEnd then .ok none else .error ⟨x.column, x.source⟩

end ByteLexer

/-! ## Offers in bytes -/

variable [Matcher P]

/-- An offer with the bytes that it reads of `s`. -/
def inBytes (s : Text) (offer : Kind × Nat) : Kind × Nat := (offer.1, byteIndex s offer.2)

theorem better_inBytes (s : Text) (best : Option (Kind × Nat)) (t : Terminal P) :
    ByteLexer.better s (best.map (inBytes s)) t = (Grammar.better s best t).map (inBytes s) := by
  have hbytes : ((best.map (inBytes s)).map Prod.snd).getD 0 =
      byteIndex s ((best.map Prod.snd).getD 0) := by
    cases best with
    | none => exact (byteIndex_zero s).symm
    | some r => rfl
  unfold ByteLexer.better Grammar.better
  cases hn : Matcher.length? t.pattern s with
  | none => rfl
  | some n =>
    simp only [hbytes, byteIndex_lt_iff (Matcher.length?_le hn)]
    split <;> rfl

theorem foldl_better_inBytes (g : Grammar P) (s : Text) :
    g.foldl (ByteLexer.better s) none = (g.longest? s).map (inBytes s) := by
  have go : ∀ (ts : Grammar P) (best : Option (Kind × Nat)),
      ts.foldl (ByteLexer.better s) (best.map (inBytes s)) =
        (ts.foldl (Grammar.better s) best).map (inBytes s) := by
    intro ts
    induction ts with
    | nil => exact fun _ => rfl
    | cons t ts ih =>
      intro best
      rw [List.foldl_cons, better_inBytes, ih, List.foldl_cons]
  exact go g none

end Checked

/-! ## The two lexers -/

namespace Lexer
variable {P : Type}

/-- The lexer with its place in bytes. -/
def inBytes (x : Lexer P) : Checked.ByteLexer P :=
  ⟨x.source, byteIndex x.source x.column, x.column, x.grammar⟩

structure Placed (x : Lexer P) : Prop where
  rest : x.rest = x.source.drop x.column
  column : x.column ≤ x.source.length

theorem inBytes_new (g : Grammar P) (source : Text) :
    (new g source).inBytes = .new g source := by
  simp only [inBytes, new, Checked.ByteLexer.new, byteIndex_zero]

variable {x : Lexer P} (h : x.Placed)
include h

theorem Placed.length_rest : x.column + x.rest.length = x.source.length := by
  have := h.column
  rw [h.rest, List.length_drop]
  omega

theorem Placed.rest?_inBytes : x.inBytes.rest? = some x.rest := by
  rw [h.rest]
  exact byteSliceFrom?_eq x.source x.column

theorem Placed.atEnd_inBytes : x.inBytes.atEnd = x.atEnd := by
  have hlength := h.length_rest
  have hend : byteIndex x.source x.source.length = (utf8 x.source).length :=
    byteIndex_of_le (Nat.le_refl _)
  have hlt := @byteIndex_lt_iff x.source x.column x.source.length (Nat.le_refl _)
  rw [hend] at hlt
  rw [Bool.eq_iff_iff, Checked.ByteLexer.atEnd, decide_eq_true_iff, atEnd, List.isEmpty_iff,
    ← List.length_eq_zero_iff]
  simp only [inBytes]
  omega

/-- Taking characters moves the place by the bytes of these characters. -/
theorem Placed.take_inBytes (k : Kind) {n : Nat} (hn : n ≤ x.rest.length) :
    (x.take k n).2.inBytes =
      { x.inBytes with
        place := x.inBytes.place + byteIndex x.rest n
        column := x.inBytes.column + (x.rest.take n).length } := by
  have hplace : byteIndex x.source (x.column + n) =
      byteIndex x.source x.column + byteIndex x.rest n := by
    rw [byteIndex_add, ← h.rest]
  simp only [inBytes, Lexer.take, List.length_take, Nat.min_eq_left hn, hplace]

theorem Placed.skipRest_inBytes :
    x.inBytes.skipRest = some (x.skipRest.map (Prod.map id inBytes)) := by
  unfold Checked.ByteLexer.skipRest Lexer.skipRest
  rw [h.atEnd_inBytes]
  split
  · rfl
  · have hall : x.inBytes.place + byteIndex x.rest x.rest.length =
        (utf8 x.inBytes.source).length := by
      simp only [inBytes]
      rw [h.rest, ← byteIndex_add]
      exact byteIndex_of_le (by rw [List.length_drop]; omega)
    have htake := h.take_inBytes .junk (Nat.le_refl x.rest.length)
    rw [hall, List.take_length] at htake
    simp only [h.rest?_inBytes, Option.bind_eq_bind, Option.bind_some, Option.map_some, Prod.map,
      htake]
    simp only [Lexer.take, List.take_length]
    rfl

theorem Placed.scan_inBytes [Matcher P] :
    x.inBytes.scan = some (x.scan.map (Option.map (Prod.map id inBytes))) := by
  unfold Checked.ByteLexer.scan Lexer.scan
  simp only [h.rest?_inBytes, Option.bind_eq_bind, Option.bind_some, h.atEnd_inBytes]
  have hgrammar : x.inBytes.grammar = x.grammar := rfl
  rw [hgrammar, Checked.foldl_better_inBytes]
  cases hlongest : x.grammar.longest? x.rest with
  | none =>
    simp only [Option.map_none]
    split <;> rfl
  | some r =>
    obtain ⟨k, n⟩ := r
    have hn := (x.grammar.fits_longest? x.rest k n hlongest).2
    have hraw : cut? x.rest 0 (byteIndex x.rest n) = some (x.rest.take n) := by
      have := cut?_byteIndex x.rest (Nat.zero_le n)
      rwa [byteIndex_zero, slice_zero] at this
    simp only [Option.map_some, Checked.inBytes, hraw, Option.bind_some, Except.map, Prod.map,
      h.take_inBytes k hn]
    rfl

end Lexer
end StructEdit
