/-!
# Finite double precision numbers

The numbers with a fractional part that a document can hold: the finite values of the IEEE 754
format with 64 bits, kept as their three fields.  The exponent field `2047`, which stands for the
infinities and for "not a number", is not an element of `Fin 2047`, so every `Binary64` is finite.

- `Binary64.mantissa`, `Binary64.scale`: the magnitude is `mantissa * 2 ^ scale`.
- `Binary64.equal`: equality of numbers, under which the two zeros are one number.
- `Binary64.ofDecimal?`: the double nearest to a decimal, a tie going to the even mantissa, and
  `none` for a decimal beyond the largest double.

Everything is computed with `Nat` and `Int`, so that each value can be evaluated in a proof.
-/

namespace SchemaLoom

/-- The weight of the leading bit of a normal number, which is not stored: two to the power 52. -/
abbrev leadingBit : Nat := 0x10000000000000

/-- A finite double: its sign bit, its biased exponent and its fraction field. -/
structure Binary64 where
  negative : Bool
  exponent : Fin 2047
  fraction : Fin leadingBit
deriving DecidableEq, Repr

namespace Binary64

/-- The integer significand: the fraction field, with the leading bit of a normal number. -/
def mantissa (x : Binary64) : Nat :=
  if x.exponent.val = 0 then x.fraction.val else leadingBit + x.fraction.val

/-- The power of two that the mantissa is scaled by; subnormal numbers share the least one. -/
def scale (x : Binary64) : Int :=
  (max x.exponent.val 1 : Nat) - 1075

def isZero (x : Binary64) : Bool :=
  x.mantissa == 0

/-- Equality of the numbers denoted: the two zeros are equal, and else the fields decide. -/
def equal (x y : Binary64) : Bool :=
  x == y || (x.isZero && y.isZero)

/-- Whether the number has no fractional part. -/
def isIntegral (x : Binary64) : Bool :=
  decide (0 ≤ x.scale) || x.mantissa % Nat.pow 2 x.scale.natAbs == 0

theorem equal_refl (x : Binary64) : x.equal x = true := by
  simp [equal]

theorem equal_comm (x y : Binary64) : x.equal y = y.equal x := by
  simp only [equal, Bool.and_comm, BEq.comm (a := x)]

/-! ## Rounding -/

/-- The quotient of two naturals rounded to the nearest natural, a tie going to the even one. -/
def divNearest (num den : Nat) : Nat :=
  let q := num / den
  let r := num % den
  if 2 * r < den then q
  else if den < 2 * r then q + 1
  else q + q % 2

/-- The quotient of two naturals, scaled by a power of two and rounded. -/
def scaledNearest (num den : Nat) (scale : Int) : Nat :=
  if scale ≤ 0 then divNearest (num * Nat.pow 2 scale.natAbs) den
  else divNearest num (den * Nat.pow 2 scale.natAbs)

/-- The double with the given mantissa and scale; `none` when the exponent does not fit. -/
def assemble? (negative : Bool) (mantissa : Nat) (scale : Int) : Option Binary64 :=
  if mantissa < leadingBit then
    some ⟨negative, 0, Fin.ofNat _ mantissa⟩
  else
    let field := (scale + 1075).toNat
    if h : field < 2047 then some ⟨negative, ⟨field, h⟩, Fin.ofNat _ (mantissa - leadingBit)⟩
    else none

/-- The double nearest to the positive quotient `num / den`.  The scale is the one that leaves 53
bits before the point, but no less than that of the subnormal numbers. -/
def ofRatio? (negative : Bool) (num den : Nat) : Option Binary64 :=
  let guess : Int := (num.log2 : Int) - den.log2 - 53
  let fits : Bool :=
    if guess ≤ 0 then num * Nat.pow 2 guess.natAbs < den * (2 * leadingBit)
    else num < den * Nat.pow 2 (guess.natAbs + 53)
  let scale : Int := max (if fits then guess else guess + 1) (-1074)
  let rounded := scaledNearest num den scale
  if rounded = 2 * leadingBit then assemble? negative leadingBit (scale + 1)
  else assemble? negative rounded scale

def zero (negative : Bool) : Binary64 := ⟨negative, 0, 0⟩

/-- The double nearest to `digits * 10 ^ exponent`.  Decimals that are far out of range are
settled before any large power is computed. -/
def ofDecimal? (negative : Bool) (digits : Nat) (exponent : Int) : Option Binary64 :=
  if digits = 0 then some (zero negative)
  else if 310 < exponent then none
  else if exponent + digits.log2 < -400 then some (zero negative)
  else if 0 ≤ exponent then ofRatio? negative (digits * Nat.pow 10 exponent.natAbs) 1
  else ofRatio? negative digits (Nat.pow 10 exponent.natAbs)

end Binary64

end SchemaLoom
