import StructEdit.Toml.Value

/-!
# TOML scalars

Strings, numbers, booleans and keys. Readers take the text from their place on and
give what they read with the text after it.

A decimal integer has no leading zero, and an underscore stands between two digits. A float
has to be finite as a double, unless it is spelled out as infinite.
-/
namespace StructEdit.Toml

/-- Characters that may stand in a string or comment: no controls but the tab. -/
def isPlain (c : Char) : Bool :=
  c = '\t' || (0x20 ≤ c.toNat && c.toNat ≠ 0x7F)

/-- The value of a digit in a base up to sixteen. -/
def digit? (base : Nat) (c : Char) : Option Nat :=
  let n :=
    if c.isDigit then c.toNat - '0'.toNat
    else if 'a' ≤ c ∧ c ≤ 'f' then c.toNat - 'a'.toNat + 10
    else if 'A' ≤ c ∧ c ≤ 'F' then c.toNat - 'A'.toNat + 10
    else base
  if n < base then some n else none

/-- Reads the digits behind a first one whose value is `acc`. -/
def digitsFrom? (base acc : Nat) : Text → Option Nat
  | [] => some acc
  | '_' :: c :: s => (digit? base c).bind fun d => digitsFrom? base (acc * base + d) s
  | c :: s => (digit? base c).bind fun d => digitsFrom? base (acc * base + d) s

/-- The number that the digits write. -/
def digits? (base : Nat) : Text → Option Nat
  | [] => none
  | c :: s => (digit? base c).bind fun d => digitsFrom? base d s

/-- The number that the decimal digits write, if they do not start with a needless zero. -/
def decimal? (s : Text) : Option Nat :=
  match s with
  | '0' :: _ :: _ => none
  | s => digits? 10 s

def integer? (s : Text) : Option Int :=
  match s with
  | '0' :: 'x' :: r => (digits? 16 r).map Int.ofNat
  | '0' :: 'o' :: r => (digits? 8 r).map Int.ofNat
  | '0' :: 'b' :: r => (digits? 2 r).map Int.ofNat
  | '+' :: r => (decimal? r).map Int.ofNat
  | '-' :: r => (decimal? r).map fun n => -(n : Int)
  | r => (decimal? r).map Int.ofNat

def dropSign : Text → Text
  | '+' :: s => s
  | '-' :: s => s
  | s => s

def isDigitMark (c : Char) : Bool := c.isDigit || c = '_'

/-- The exponent behind an `e` or `E`; nothing at all stands for zero. -/
def exponent? (s : Text) : Option Int :=
  match s with
  | [] => some 0
  | c :: s =>
    if c ≠ 'e' ∧ c ≠ 'E' then none
    else
      match s with
      | '-' :: r => (digits? 10 r).map fun n => -(n : Int)
      | s => (digits? 10 (dropSign s)).map Int.ofNat

/-- A decimal number: `coefficient` times ten to the power of `exponent`. -/
structure Scientific where
  coefficient : Nat
  exponent : Int

/-- What follows the integer part of a float: a fraction, an exponent or both. -/
def floatTail? (whole : Nat) : Text → Option Scientific
  | [] => none
  | '.' :: s =>
    let fraction := s.takeWhile isDigitMark
    let places := (fraction.filter Char.isDigit).length
    (digits? 10 fraction).bind fun n =>
      (exponent? (s.dropWhile isDigitMark)).map fun e =>
        ⟨whole * Nat.pow 10 places + n, e - (places : Int)⟩
  | s => (exponent? s).map fun e => ⟨whole, e⟩

/-- The number that a float without its sign writes. -/
def scientific? (s : Text) : Option Scientific :=
  (decimal? (s.takeWhile isDigitMark)).bind fun whole =>
    floatTail? whole (s.dropWhile isDigitMark)

/-- The least number that is too large for a double: half a step above the largest one. -/
def floatBound : Nat := Nat.pow 2 1024 - Nat.pow 2 970

/-- Whether the number rounds to a finite double. The number of digits decides unless it is that of
`floatBound`, which has 309. -/
def Scientific.isFinite (x : Scientific) : Bool :=
  let digits : Int := (Nat.toDigits 10 x.coefficient).length + x.exponent
  if x.coefficient = 0 || digits < 309 then true
  else if 309 < digits then false
  else decide (x.coefficient * Nat.pow 10 x.exponent.toNat <
    floatBound * Nat.pow 10 (-x.exponent).toNat)

def isFloat (s : Text) : Bool :=
  let r := dropSign s
  r = "inf".toList || r = "nan".toList || (scientific? r).any Scientific.isFinite

def isScalarChar (c : Char) : Bool := c.isAlphanum || c = '+' || c = '-' || c = '_' || c = '.'

/-- A value that is written in one word. -/
def word? (s : Text) : Option Value :=
  if s = "true".toList then some (.boolean true)
  else if s = "false".toList then some (.boolean false)
  else
    match integer? s with
    | some n => some (.integer n)
    | none => if isFloat s then some .float else none

/-- The character with the given code point, if there is one. -/
def scalar? (n : Nat) : Option Char :=
  if n.isValidChar then some (Char.ofNat n) else none

/-- The character whose code point the hexadecimal digits write. -/
def codePoint? (s : Text) : Option Char :=
  if s.any (· = '_') then none else (digits? 16 s).bind scalar?

/-- The rest of a string between double quotes, and what follows it. -/
def basicString? : Text → Option (Text × Text)
  | [] => none
  | '"' :: s => some ([], s)
  | '\\' :: 'b' :: s => (basicString? s).map fun (t, r) => (Char.ofNat 0x8 :: t, r)
  | '\\' :: 't' :: s => (basicString? s).map fun (t, r) => ('\t' :: t, r)
  | '\\' :: 'n' :: s => (basicString? s).map fun (t, r) => ('\n' :: t, r)
  | '\\' :: 'f' :: s => (basicString? s).map fun (t, r) => (Char.ofNat 0xC :: t, r)
  | '\\' :: 'r' :: s => (basicString? s).map fun (t, r) => ('\r' :: t, r)
  | '\\' :: 'e' :: s => (basicString? s).map fun (t, r) => (Char.ofNat 0x1B :: t, r)
  | '\\' :: '"' :: s => (basicString? s).map fun (t, r) => ('"' :: t, r)
  | '\\' :: '\\' :: s => (basicString? s).map fun (t, r) => ('\\' :: t, r)
  | '\\' :: 'x' :: a :: b :: s =>
    (codePoint? [a, b]).bind fun x => (basicString? s).map fun (t, r) => (x :: t, r)
  | '\\' :: 'u' :: a :: b :: c :: d :: s =>
    (codePoint? [a, b, c, d]).bind fun x => (basicString? s).map fun (t, r) => (x :: t, r)
  | '\\' :: 'U' :: a :: b :: c :: d :: e :: f :: g :: h :: s =>
    (codePoint? [a, b, c, d, e, f, g, h]).bind fun x =>
      (basicString? s).map fun (t, r) => (x :: t, r)
  | '\\' :: _ => none
  | c :: s => if isPlain c then (basicString? s).map fun (t, r) => (c :: t, r) else none

/-- The rest of a string between single quotes, and what follows it. -/
def literalString? : Text → Option (Text × Text)
  | [] => none
  | '\'' :: s => some ([], s)
  | c :: s => if isPlain c then (literalString? s).map fun (t, r) => (c :: t, r) else none

def isKeyChar (c : Char) : Bool := c.isAlphanum || c = '-' || c = '_'

/-- A bare or quoted key. -/
def key? : Text → Option (Text × Text)
  | '"' :: s => basicString? s
  | '\'' :: s => literalString? s
  | s => if (s.takeWhile isKeyChar).isEmpty then none
    else some (s.takeWhile isKeyChar, s.dropWhile isKeyChar)

end StructEdit.Toml
