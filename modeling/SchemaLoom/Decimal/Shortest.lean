import SchemaLoom.Decimal.Binary64

/-!
# The shortest decimal of a double

Every decimal between a double's two midpoints to its neighbours reads back as that double (the
midpoints themselves do when the mantissa is even).  `Binary64.shortest` is the decimal with the
fewest digits among them, and the nearest to the double of those.

For each digit count from 1 to 17 only the two decimals around the double can lie closest to it on
the grid of that count: if any grid point reads back, one of these two does.  The first count with
a hit gives the answer.  All comparisons are between naturals.
-/

namespace SchemaLoom

/-- The number `digits * 10 ^ exponent`. -/
structure Decimal where
  digits : Nat
  exponent : Int
deriving DecidableEq, Repr

namespace Binary64

/-- Naturals `value`, `low`, `high` and `den`: the double's magnitude and its two midpoints are
these over the common denominator. -/
structure Interval where
  low : Nat
  value : Nat
  high : Nat
  den : Nat
  closed : Bool

/-- The interval of reals that round to the double.  It is measured in quarters of the last bit,
because below a power of two the spacing halves. -/
def interval (x : Binary64) : Interval :=
  let m := x.mantissa
  let q := x.scale - 2
  let up := Nat.pow 2 q.toNat
  let below := if x.fraction.val = 0 ∧ 1 < x.exponent.val then 1 else 2
  { low := (4 * m - below) * up
    value := 4 * m * up
    high := (4 * m + 2) * up
    den := Nat.pow 2 (-q).toNat
    closed := m % 2 == 0 }

/-- The decimal exponent of the leading digit. -/
def Interval.magnitude (i : Interval) : Int :=
  ((Nat.toDigits 10 (i.value * Nat.pow 10 330 / i.den)).length : Int) - 331

/-- The double's neighbour on the grid of multiples of `10 ^ exponent` that reads back as the
double, if there is one; of two, the nearer, and of two at one distance the even one. -/
def Interval.onGrid? (i : Interval) (exponent : Int) : Option Decimal :=
  let up := Nat.pow 10 (-exponent).toNat
  let unit := i.den * Nat.pow 10 exponent.toNat
  let value := i.value * up
  let floor := value / unit
  let below := floor * unit
  let above := below + unit
  let belowOk := if i.closed then i.low * up ≤ below else i.low * up < below
  let aboveOk := if i.closed then above ≤ i.high * up else above < i.high * up
  let preferBelow :=
    value - below < above - value ∨ (value - below = above - value ∧ floor % 2 = 0)
  if belowOk ∧ (¬ aboveOk ∨ preferBelow) then some ⟨floor, exponent⟩
  else if aboveOk then some ⟨floor + 1, exponent⟩
  else none

/-- The shortest decimal that reads back as the magnitude of a double other than zero. -/
def shortest (x : Binary64) : Decimal :=
  let i := x.interval
  let top := i.magnitude
  let found := (List.range 17).findSome? fun (n : Nat) => i.onGrid? (top - n)
  found.getD ⟨i.value * Nat.pow 10 (16 - top).toNat / i.den, top - 16⟩

end Binary64

end SchemaLoom
