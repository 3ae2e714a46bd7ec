import SchemaLoom.Decimal.Shortest

/-!
# Reading numerals

- `Numeral.value?`: the number that a list of digits of some radix stands for.
- `Literal`: a decimal with its optional point, fraction and exponent, as `Literal.scan` finds it
  at the head of a text.  Each format decides for itself which of the parts it demands.
-/

namespace SchemaLoom

namespace Numeral

/-- The first number that does not fit into 64 bits. -/
def wordLimit : Nat := 0x10000000000000000

/-- The value of a digit, letters standing for ten and on. -/
def digit? (radix : Nat) (c : Char) : Option Nat :=
  let n :=
    if c.isDigit then c.toNat - '0'.toNat
    else if 'a' ≤ c ∧ c ≤ 'z' then c.toNat - 'a'.toNat + 10
    else if 'A' ≤ c ∧ c ≤ 'Z' then c.toNat - 'A'.toNat + 10
    else radix
  if n < radix then some n else none

/-- The value of digits that follow a number already read. -/
def valueFrom? (radix : Nat) : Nat → List Char → Option Nat
  | n, [] => some n
  | n, c :: cs => (digit? radix c).bind fun d => valueFrom? radix (radix * n + d) cs

/-- The number that a list of digits stands for; there must be a digit, and digits alone. -/
def value? (radix : Nat) (cs : List Char) : Option Nat :=
  if cs.isEmpty then none else valueFrom? radix 0 cs

/-- The number that a list of decimal digits stands for; any other character counts as zero. -/
def decimalValue (cs : List Char) : Nat :=
  cs.foldl (fun n c => 10 * n + (digit? 10 c).getD 0) 0

end Numeral

/-- The parts of a decimal without its sign. -/
structure Literal where
  whole : List Char
  point : Bool
  fraction : List Char
  exponent : Option Int

namespace Literal

/-- An exponent mark with its digits at the head of a text. -/
def scanExponent (cs : List Char) : Option Int × List Char :=
  match cs with
  | e :: rest =>
    if e = 'e' ∨ e = 'E' then
      let (negative, body) := match rest with
        | '-' :: r => (true, r)
        | '+' :: r => (false, r)
        | r => (false, r)
      let digits := body.takeWhile Char.isDigit
      if digits.isEmpty then (none, cs)
      else
        let n : Int := Numeral.decimalValue digits
        (some (if negative then -n else n), body.dropWhile Char.isDigit)
    else (none, cs)
  | [] => (none, cs)

/-- The literal at the head of a text, and the text after it. -/
def scan (cs : List Char) : Literal × List Char :=
  let whole := cs.takeWhile Char.isDigit
  let (point, fraction, rest) := match cs.dropWhile Char.isDigit with
    | '.' :: r => (true, r.takeWhile Char.isDigit, r.dropWhile Char.isDigit)
    | r => (false, [], r)
  let (exponent, rest) := scanExponent rest
  (⟨whole, point, fraction, exponent⟩, rest)

/-- The decimal that a literal stands for. -/
def decimal (l : Literal) : Decimal :=
  ⟨Numeral.decimalValue (l.whole ++ l.fraction), l.exponent.getD 0 - l.fraction.length⟩

/-- The double nearest to a literal; `none` when it is out of range. -/
def float? (l : Literal) (negative : Bool) : Option Binary64 :=
  let d := l.decimal
  Binary64.ofDecimal? negative d.digits d.exponent

end Literal

end SchemaLoom
