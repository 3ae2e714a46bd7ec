import SchemaLoom.Decimal.Shortest

/-!
# Writing doubles

`Layout.write` writes the shortest decimal of a double in one of two forms: positional, always with
a digit on each side of the point, or scientific, with the point after the first digit.  A `Layout`
holds what a format decides about them.
-/

namespace SchemaLoom

/-- What a format decides about the text of a double. -/
structure Layout where
  /-- The least and the greatest leading exponent that is written positionally. -/
  positional : Int × Int
  /-- Whether an exponent that is not negative is written with its sign. -/
  exponentPlus : Bool

namespace Layout

/-- The significant digits of a decimal without the zeros at their end. -/
def significant (d : Decimal) : List Char :=
  ((Nat.toDigits 10 d.digits).reverse.dropWhile (· == '0')).reverse

/-- The exponent of the leading digit. -/
def leading (d : Decimal) : Int :=
  d.exponent + (Nat.toDigits 10 d.digits).length - 1

/-- Digits with the point placed for a number whose leading digit has the given exponent. -/
def writePositional (digits : List Char) (lead : Int) : List Char :=
  if lead < 0 then
    '0' :: '.' :: List.replicate (lead.natAbs - 1) '0' ++ digits
  else
    let whole := lead.toNat + 1
    let padded := digits ++ List.replicate (whole - digits.length) '0'
    let rest := padded.drop whole
    padded.take whole ++ '.' :: (if rest.isEmpty then ['0'] else rest)

def writeScientific (l : Layout) (digits : List Char) (lead : Int) : List Char :=
  let point := match digits with
    | d :: r :: rest => d :: '.' :: r :: rest
    | ds => ds
  let sign := if lead < 0 then ['-'] else if l.exponentPlus then ['+'] else []
  point ++ 'e' :: sign ++ Nat.toDigits 10 lead.natAbs

/-- The text of a double, `-` marking the negative ones, the negative zero too. -/
def write (l : Layout) (x : Binary64) : List Char :=
  let sign := if x.negative then ['-'] else []
  if x.isZero then sign ++ ['0', '.', '0']
  else
    let d := x.shortest
    let digits := significant d
    let lead := leading d
    sign ++
      if l.positional.1 ≤ lead ∧ lead ≤ l.positional.2 then writePositional digits lead
      else l.writeScientific digits lead

end Layout

end SchemaLoom
