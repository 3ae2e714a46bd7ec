import SchemaLoom.Decimal.Numeral

/-!
# Decimals by double arithmetic

A literal can be read with double arithmetic alone: the digits that fit into 64 bits become a
double, which is then multiplied or divided by a power of ten.  Every step rounds, so the outcome
is near the literal, but another double may be nearer.

- `Binary64.mul?`, `Binary64.div?`: rounded products and quotients.
- `Literal.scaled?`: the double of a literal.
-/

namespace SchemaLoom

namespace Binary64

/-- The magnitude as a quotient of naturals. -/
def ratio (x : Binary64) : Nat × Nat :=
  (x.mantissa * Nat.pow 2 x.scale.toNat, Nat.pow 2 (-x.scale).toNat)

/-- The double nearest to a product; `none` when it is out of range. -/
def mul? (x y : Binary64) : Option Binary64 :=
  ofRatio? (x.negative != y.negative) (x.ratio.1 * y.ratio.1) (x.ratio.2 * y.ratio.2)

/-- The double nearest to a quotient; `none` when it is out of range or the divisor is zero. -/
def div? (x y : Binary64) : Option Binary64 :=
  if y.isZero then none
  else ofRatio? (x.negative != y.negative) (x.ratio.1 * y.ratio.2) (x.ratio.2 * y.ratio.1)

/-- The exponent of the largest power of ten that is a double. -/
def maxPower : Nat := 308

/-- The double nearest to a power of ten. -/
def power? (n : Nat) : Option Binary64 :=
  ofDecimal? false 1 n

/-- A double times a power of ten.  One division is not enough below the reciprocal of the largest
power; below its square even the largest integer of 64 bits comes to zero. -/
def scaleBy? (x : Binary64) (exponent : Int) : Option Binary64 :=
  let n := exponent.natAbs
  if x.isZero then some x
  else if 0 ≤ exponent then
    if n ≤ maxPower then (power? n).bind x.mul? else none
  else if n ≤ maxPower then (power? n).bind x.div?
  else if n ≤ 2 * maxPower then do
    let part ← (power? maxPower).bind x.div?
    (power? (n - maxPower)).bind part.div?
  else some (zero x.negative)

end Binary64

/-- The number that digits continue another one to, as long as it fits into 64 bits, and the digits
that are left. -/
def Numeral.fitting (n : Nat) : List Char → Nat × List Char
  | [] => (n, [])
  | c :: cs =>
    let next := 10 * n + (digit? 10 c).getD 0
    if next < wordLimit then fitting next cs else (n, c :: cs)

/-- The double of a literal by double arithmetic; `none` when it is out of range.  The digits of
the whole part that do not fit count as zeros, and those of the fraction as nothing. -/
def Literal.scaled? (l : Literal) (negative : Bool) : Option Binary64 :=
  let (whole, zeros) := Numeral.fitting 0 l.whole
  let (digits, ignored) := Numeral.fitting whole l.fraction
  let exponent := l.exponent.getD 0 + zeros.length - (l.fraction.length - ignored.length : Nat)
  (Binary64.ofRatio? negative digits 1).bind (·.scaleBy? exponent)

end SchemaLoom
