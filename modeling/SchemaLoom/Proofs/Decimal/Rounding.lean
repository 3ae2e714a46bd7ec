import Mathlib.Algebra.Order.Field.Power
import Mathlib.Data.Rat.Cast.Order
import Mathlib.Tactic.Linarith
import Mathlib.Tactic.Positivity
import Mathlib.Tactic.Ring
import SchemaLoom.Decimal.Shortest

/-!
# Decimals that round to a double

Around each double lie the numbers that round to it.  No number rounds to two doubles of one sign,
and the shortest decimal of a double rounds to it: seventeen digits are always enough.

- `Decimal.value`: the number that a decimal denotes.
- `Between`: a number lies between two others.
- `Binary64.Interval.Holds`: a number lies in the interval of a double.
- `Binary64.holds_shortest`: the shortest decimal of a double does.
- `Binary64.eq_of_holds`: a number lies in the interval of one double alone.
-/

namespace SchemaLoom

/-- The number that a decimal denotes. -/
def Decimal.value (d : Decimal) : ℚ :=
  d.digits * 10 ^ d.exponent

/-- An integral power as a quotient of natural ones. -/
theorem zpow_mul_pow_toNat_neg {b : ℚ} (hb : b ≠ 0) (e : ℤ) :
    b ^ e * b ^ (-e).toNat = b ^ e.toNat := by
  rw [← zpow_natCast, ← zpow_natCast, ← zpow_add₀ hb]
  congr 1
  omega

/-- A number lies between two others, and is neither of them unless the range is closed. -/
structure Between (closed : Bool) (low v high : ℚ) : Prop where
  low_le : low ≤ v
  le_high : v ≤ high
  lt : closed = false → low < v ∧ v < high

/-- All three numbers can be measured in another unit. -/
theorem Between.of_mul {closed : Bool} {low v high c : ℚ} (hc : 0 < c)
    (h : Between closed (low * c) (v * c) (high * c)) : Between closed low v high where
  low_le := le_of_mul_le_mul_right h.low_le hc
  le_high := le_of_mul_le_mul_right h.le_high hc
  lt hopen :=
    ⟨lt_of_mul_lt_mul_right (h.lt hopen).1 hc.le, lt_of_mul_lt_mul_right (h.lt hopen).2 hc.le⟩

namespace Binary64

namespace Interval

variable {i : Interval} {e : Int} {d : Decimal}

/-- A number lies in an interval; the ends belong to the interval if it is closed. -/
def Holds (i : Interval) (v : ℚ) : Prop :=
  Between i.closed i.low (v * i.den) i.high

/-! ## Points of a decimal grid -/

/-- Points of a grid are compared with the ends of an interval as naturals. -/
theorem holds_of_grid {n : Nat}
    (hlow : i.low * 10 ^ (-e).toNat ≤ n * (i.den * 10 ^ e.toNat))
    (hhigh : n * (i.den * 10 ^ e.toNat) ≤ i.high * 10 ^ (-e).toNat)
    (hlt : i.closed = false → i.low * 10 ^ (-e).toNat < n * (i.den * 10 ^ e.toNat) ∧
      n * (i.den * 10 ^ e.toNat) < i.high * 10 ^ (-e).toNat) :
    i.Holds (Decimal.value ⟨n, e⟩) := by
  have hup : (0 : ℚ) < 10 ^ (-e).toNat := by positivity
  have hscale : Decimal.value ⟨n, e⟩ * i.den * 10 ^ (-e).toNat =
      ((n * (i.den * 10 ^ e.toNat) : ℕ) : ℚ) := by
    have hpow : (10 : ℚ) ^ e * 10 ^ (-e).toNat = 10 ^ e.toNat :=
      zpow_mul_pow_toNat_neg (by norm_num) e
    push_cast
    rw [← hpow]
    simp only [Decimal.value]
    ring
  refine Between.of_mul hup ?_
  rw [hscale]
  exact ⟨by exact_mod_cast hlow, by exact_mod_cast hhigh, by exact_mod_cast hlt⟩

/-- A neighbour of the double on a grid that is found lies in the interval. -/
theorem holds_of_onGrid? (hlow : i.low < i.value) (hhigh : i.value < i.high) (hden : 0 < i.den)
    (h : i.onGrid? e = some d) : i.Holds d.value := by
  have hup : 0 < 10 ^ (-e).toNat := by positivity
  have hunit : 0 < i.den * 10 ^ e.toNat := by positivity
  have hfloor := Nat.div_mul_le_self (i.value * 10 ^ (-e).toNat) (i.den * 10 ^ e.toNat)
  have hceil := (Nat.div_lt_iff_lt_mul hunit).1
    (Nat.lt_add_one (i.value * 10 ^ (-e).toNat / (i.den * 10 ^ e.toNat)))
  have hlow' := Nat.mul_lt_mul_of_pos_right hlow hup
  have hhigh' := Nat.mul_lt_mul_of_pos_right hhigh hup
  simp only [onGrid?, Nat.pow_eq] at h
  generalize i.value * 10 ^ (-e).toNat / (i.den * 10 ^ e.toNat) = floor at h hfloor hceil
  rw [← Nat.succ_mul] at h
  by_cases hclosed : i.closed = true
  · simp only [hclosed, if_true] at h
    have hopen : i.closed ≠ false := by simp [hclosed]
    split at h
    next hbelow =>
      cases h
      exact holds_of_grid hbelow.1 (by omega) fun h => absurd h hopen
    next =>
      split at h
      next habove =>
        cases h
        exact holds_of_grid (by omega) habove fun h => absurd h hopen
      next => cases h
  · simp only [hclosed, Bool.false_eq_true, if_false] at h
    split at h
    next hbelow =>
      cases h
      exact holds_of_grid hbelow.1.le (by omega) fun _ => ⟨hbelow.1, by omega⟩
    next =>
      split at h
      next habove =>
        cases h
        exact holds_of_grid (by omega) habove.le fun _ => ⟨by omega, habove⟩
      next => cases h

/-- A grid that is finer than the interval has a point in it next to the double. -/
theorem isSome_onGrid? (h : (i.low : ℚ) + i.den * 10 ^ e < i.high) :
    (i.onGrid? e).isSome = true := by
  have hfine : i.low * 10 ^ (-e).toNat + i.den * 10 ^ e.toNat < i.high * 10 ^ (-e).toNat := by
    have hup : (0 : ℚ) < 10 ^ (-e).toNat := by positivity
    have hpow : (10 : ℚ) ^ e * 10 ^ (-e).toNat = 10 ^ e.toNat :=
      zpow_mul_pow_toNat_neg (by norm_num) e
    have hscaled := mul_lt_mul_of_pos_right h hup
    rw [add_mul, mul_assoc, hpow] at hscaled
    exact_mod_cast hscaled
  simp only [onGrid?, Nat.pow_eq]
  generalize i.value * 10 ^ (-e).toNat / (i.den * 10 ^ e.toNat) * (i.den * 10 ^ e.toNat) = below
  by_cases hclosed : i.closed = true
  · simp only [hclosed, if_true]
    split
    next => rfl
    next =>
      split
      next => rfl
      next => omega
  · simp only [hclosed, Bool.false_eq_true, if_false]
    split
    next => rfl
    next =>
      split
      next => rfl
      next => omega

/-! ## The leading digit -/

theorem pow_length_toDigits_le {n : Nat} (h : 0 < n) :
    10 ^ ((Nat.toDigits 10 n).length - 1) ≤ n := by
  by_cases hone : (Nat.toDigits 10 n).length = 1
  · rw [hone]
    exact h
  · have hpos : 0 < (Nat.toDigits 10 n).length := Nat.length_toDigits_pos
    refine Nat.le_of_not_lt fun hlt => ?_
    have hle := (Nat.length_toDigits_le_iff (by decide) (by omega)).2 hlt
    omega

/-- The exponent of the leading digit of a quotient, found from the digits of a multiple. -/
theorem den_mul_zpow_le {value den p : Nat} (hden : 0 < den) (h : den ≤ value * Nat.pow 10 p) :
    (den : ℚ) * 10 ^ (((Nat.toDigits 10 (value * Nat.pow 10 p / den)).length : ℤ) - (p + 1)) ≤
      value := by
  have hone : 0 < value * Nat.pow 10 p / den := Nat.div_pos h hden
  have hdiv := Nat.div_mul_le_self (value * Nat.pow 10 p) den
  have hquot := pow_length_toDigits_le hone
  have hpos : 0 < (Nat.toDigits 10 (value * Nat.pow 10 p / den)).length := Nat.length_toDigits_pos
  generalize (Nat.toDigits 10 (value * Nat.pow 10 p / den)).length = len at hquot hpos
  have hle : den * 10 ^ (len - 1) ≤ value * 10 ^ p := by
    refine (Nat.mul_le_mul_left den hquot).trans ?_
    rwa [Nat.mul_comm]
  have hexp : ((len : ℤ) - (p + 1)) = ((len - 1 : ℕ) : ℤ) - p := by omega
  rw [hexp, zpow_sub₀ (by norm_num), zpow_natCast, zpow_natCast, ← mul_div_assoc,
    div_le_iff₀ (by positivity)]
  exact_mod_cast hle

end Interval

/-! ## The interval of a double -/

variable {x y : Binary64}

theorem mantissa_lt (x : Binary64) : x.mantissa < 2 * leadingBit := by
  have hfraction := x.fraction.isLt
  unfold mantissa
  split <;> omega

theorem mantissa_pos (h : x.isZero = false) : 0 < x.mantissa := by
  simpa [isZero, Nat.pos_iff_ne_zero] using h

/-- How far the lower end of the interval is from the double, in quarters of the last bit. -/
def below (x : Binary64) : Nat :=
  if x.fraction.val = 0 ∧ 1 < x.exponent.val then 1 else 2

theorem below_cases (x : Binary64) :
    (x.below = 1 ∧ x.mantissa = leadingBit ∧ 1 < x.exponent.val) ∨ x.below = 2 := by
  unfold below
  split
  next h => exact .inl ⟨rfl, by rw [mantissa, if_neg (by omega), h.1], h.2⟩
  next => exact .inr rfl

theorem interval_eq (x : Binary64) : x.interval =
    { low := (4 * x.mantissa - x.below) * 2 ^ (x.scale - 2).toNat
      value := 4 * x.mantissa * 2 ^ (x.scale - 2).toNat
      high := (4 * x.mantissa + 2) * 2 ^ (x.scale - 2).toNat
      den := 2 ^ (-(x.scale - 2)).toNat
      closed := x.mantissa % 2 == 0 } := rfl

theorem pow_two_le_pow_ten {k n p : Nat} (hk : k ≤ 23 * n) (hp : 7 * n ≤ p) :
    2 ^ k ≤ 10 ^ p :=
  calc 2 ^ k ≤ 2 ^ (23 * n) := Nat.pow_le_pow_right (by decide) hk
    _ = (2 ^ 23) ^ n := Nat.pow_mul ..
    _ ≤ (10 ^ 7) ^ n := Nat.pow_le_pow_left (by decide) n
    _ = 10 ^ (7 * n) := (Nat.pow_mul ..).symm
    _ ≤ 10 ^ p := Nat.pow_le_pow_right (by decide) hp

variable (x) in
theorem den_pos_interval : 0 < x.interval.den :=
  Nat.pow_pos (by decide)

theorem low_lt_value (h : x.isZero = false) : x.interval.low < x.interval.value := by
  have hpos := mantissa_pos h
  rw [interval_eq]
  refine Nat.mul_lt_mul_of_pos_right ?_ (by positivity)
  rcases x.below_cases with ⟨hb, -⟩ | hb <;> omega

theorem value_lt_high : x.interval.value < x.interval.high := by
  rw [interval_eq]
  exact Nat.mul_lt_mul_of_pos_right (by omega) (by positivity)

/-- The digits of a large multiple of the double give a power of ten that is no larger. -/
theorem den_mul_zpow_le_value (h : x.isZero = false) {p : Nat} (hp : 7 * 47 ≤ p) :
    (x.interval.den : ℚ) *
      10 ^ (((Nat.toDigits 10 (x.interval.value * Nat.pow 10 p / x.interval.den)).length : ℤ) -
        (p + 1)) ≤ x.interval.value := by
  have hvalue : 0 < x.interval.value := Nat.zero_lt_of_lt (low_lt_value h)
  have hscale : (-(x.scale - 2)).toNat ≤ 23 * 47 := by
    unfold scale
    omega
  exact Interval.den_mul_zpow_le x.den_pos_interval
    ((pow_two_le_pow_ten hscale hp).trans (Nat.le_mul_of_pos_left _ hvalue))

theorem den_mul_magnitude_le (h : x.isZero = false) :
    (x.interval.den : ℚ) * 10 ^ x.interval.magnitude ≤ x.interval.value := by
  have hp : 7 * 47 ≤ 330 := by decide
  rw [Interval.magnitude, show (331 : ℤ) = ((330 : ℕ) : ℤ) + 1 by norm_num]
  generalize 330 = p at hp ⊢
  exact den_mul_zpow_le_value h hp

/-- The interval is wider than one part in `10 ^ 16` of the double. -/
theorem value_lt_width (x : Binary64) :
    x.interval.low * 10 ^ 16 + x.interval.value < x.interval.high * 10 ^ 16 := by
  have hlt : (4 * x.mantissa - x.below) * 10 ^ 16 + 4 * x.mantissa <
      (4 * x.mantissa + 2) * 10 ^ 16 := by
    have hm := x.mantissa_lt
    simp only [leadingBit] at hm
    rcases x.below_cases with ⟨hb, hm, -⟩ | hb
    · simp only [leadingBit] at hm
      omega
    · omega
  have hup : 0 < 2 ^ (x.scale - 2).toNat := Nat.pow_pos (by decide)
  have hscaled := Nat.mul_lt_mul_of_pos_right hlt hup
  rw [interval_eq]
  linarith

/-- The shortest decimal of a double lies in its interval. -/
theorem holds_shortest (h : x.isZero = false) : x.interval.Holds x.shortest.value := by
  have hden := x.den_pos_interval
  have hfine : (x.interval.low : ℚ) + x.interval.den * 10 ^ (x.interval.magnitude - 16) <
      x.interval.high := by
    have hmag := den_mul_magnitude_le h
    have hwidth : (x.interval.low : ℚ) * 10 ^ 16 + x.interval.value < x.interval.high * 10 ^ 16 := by
      exact_mod_cast x.value_lt_width
    have hpow : (10 : ℚ) ^ (16 : ℤ) = 10 ^ 16 := zpow_ofNat ..
    rw [zpow_sub₀ (by norm_num), ← mul_div_assoc, ← lt_sub_iff_add_lt',
      div_lt_iff₀ (by positivity), hpow]
    linarith
  have hsome := Interval.isSome_onGrid? hfine
  -- the grid of seventeen digits is the last one that is tried
  have hfound : ((List.range 17).findSome? fun n : Nat =>
      x.interval.onGrid? (x.interval.magnitude - n)).isSome = true :=
    List.findSome?_isSome_iff.2 ⟨16, by decide, hsome⟩
  obtain ⟨d, hd⟩ := Option.isSome_iff_exists.1 hfound
  obtain ⟨n, -, hn⟩ := List.exists_of_findSome?_eq_some hd
  have hshortest : x.shortest = d := by
    rw [shortest, hd]
    rfl
  rw [hshortest]
  exact Interval.holds_of_onGrid? (low_lt_value h) value_lt_high hden hn

theorem value_shortest_pos (h : x.isZero = false) : 0 < x.shortest.value := by
  have hlow : 0 < x.interval.low := by
    have hpos := mantissa_pos h
    rw [interval_eq]
    refine Nat.mul_pos ?_ (by positivity)
    rcases x.below_cases with ⟨hb, -⟩ | hb <;> omega
  have hle := (holds_shortest h).low_le
  refine pos_of_mul_pos_left (lt_of_lt_of_le ?_ hle) (Nat.cast_nonneg _)
  exact_mod_cast hlow

theorem digits_shortest_pos (h : x.isZero = false) : 0 < x.shortest.digits := by
  refine Nat.pos_of_ne_zero fun hzero => ?_
  have hpos := value_shortest_pos h
  rw [Decimal.value, hzero, Nat.cast_zero, zero_mul] at hpos
  exact lt_irrefl _ hpos

/-! ## No number is in two intervals -/

/-- The magnitude of a double is below that of another one, by the sizes of their fields. -/
def Precedes (x y : Binary64) : Prop :=
  x.scale < y.scale ∨ x.scale = y.scale ∧ x.mantissa < y.mantissa

/-- The fields that a magnitude is computed from decide a double and its sign. -/
theorem eq_of_scale_of_mantissa (hneg : x.negative = y.negative) (hscale : x.scale = y.scale)
    (hmantissa : x.mantissa = y.mantissa) : x = y := by
  obtain ⟨sx, ex, fx⟩ := x
  obtain ⟨sy, ey, fy⟩ := y
  simp only [scale, mantissa] at hneg hscale hmantissa
  have hfx := fx.isLt
  have hfy := fy.isLt
  have hfields : ex.val = ey.val ∧ fx.val = fy.val := by
    split at hmantissa <;> split at hmantissa <;> omega
  rw [hneg, Fin.ext hfields.1, Fin.ext hfields.2]

/-- Between two doubles the interval of the one ends before that of the other begins, and the ends
that meet are not both in their intervals. -/
theorem Precedes.gap (h : x.Precedes y) :
    4 * x.mantissa + 2 ≤ (4 * y.mantissa - y.below) * 2 ^ (y.scale - x.scale).toNat ∧
      (x.mantissa % 2 = 0 → y.mantissa % 2 = 0 →
        4 * x.mantissa + 2 < (4 * y.mantissa - y.below) * 2 ^ (y.scale - x.scale).toNat) := by
  rcases h with hscale | ⟨hscale, hmantissa⟩
  · -- the greater one is normal, and the distance of the numbers at least doubles
    have hnormal : 1 < y.exponent.val := by
      unfold scale at hscale
      omega
    have hmantissa : y.mantissa = leadingBit + y.fraction.val := if_neg (by omega)
    have hlow : 4 * leadingBit - 1 ≤ 4 * y.mantissa - y.below := by
      unfold below
      split <;> omega
    have htwo : 2 ≤ 2 ^ (y.scale - x.scale).toNat := Nat.le_self_pow (by omega) 2
    have hmul := Nat.mul_le_mul hlow htwo
    have hm := x.mantissa_lt
    simp only [leadingBit] at hmul hm
    omega
  · rw [hscale, Int.sub_self, Int.toNat_zero, Nat.pow_zero, Nat.mul_one]
    rcases y.below_cases with ⟨hb, -⟩ | hb <;> omega

/-- The unit that the ends of an interval are counted in: a quarter of the last bit. -/
def unit (x : Binary64) : ℚ :=
  2 ^ (x.scale - 2)

theorem unit_pos (x : Binary64) : 0 < x.unit :=
  zpow_pos (by norm_num) _

theorem unit_mul_den (x : Binary64) : x.unit * x.interval.den = 2 ^ (x.scale - 2).toNat := by
  rw [interval_eq]
  push_cast
  exact zpow_mul_pow_toNat_neg (by norm_num) _

/-- The unit of a double with a greater scale is a multiple of that of another one. -/
theorem unit_eq_mul (h : x.scale ≤ y.scale) : y.unit = x.unit * 2 ^ (y.scale - x.scale).toNat := by
  rw [unit, unit, ← zpow_natCast, ← zpow_add₀ (by norm_num)]
  congr 1
  omega

/-- The ends of an interval as multiples of the unit. -/
theorem Interval.Holds.bounds {v : ℚ} (h : x.interval.Holds v) :
    Between (x.mantissa % 2 == 0) (((4 * x.mantissa - x.below : ℕ) : ℚ) * x.unit) v
      (((4 * x.mantissa + 2 : ℕ) : ℚ) * x.unit) := by
  have hden : (0 : ℚ) < x.interval.den := by exact_mod_cast x.den_pos_interval
  have hlow : ((4 * x.mantissa - x.below : ℕ) : ℚ) * x.unit * x.interval.den = x.interval.low := by
    rw [mul_assoc, unit_mul_den]
    exact_mod_cast rfl
  have hhigh : ((4 * x.mantissa + 2 : ℕ) : ℚ) * x.unit * x.interval.den = x.interval.high := by
    rw [mul_assoc, unit_mul_den]
    exact_mod_cast rfl
  refine Between.of_mul hden ?_
  rw [hlow, hhigh]
  exact h

/-- No number is in the intervals of two doubles of which the one precedes the other. -/
theorem Precedes.not_holds {v : ℚ} (h : x.Precedes y) (hx : x.interval.Holds v) :
    ¬ y.interval.Holds v := by
  intro hy
  obtain ⟨-, hle, hlt⟩ := hx.bounds
  obtain ⟨hge, -, hgt⟩ := hy.bounds
  obtain ⟨hgap, heven⟩ := h.gap
  have hscale : x.scale ≤ y.scale := by
    rcases h with h | h <;> omega
  -- measured in the unit of the lesser double
  have hlow : ((4 * y.mantissa - y.below : ℕ) : ℚ) * y.unit =
      (((4 * y.mantissa - y.below) * 2 ^ (y.scale - x.scale).toNat : ℕ) : ℚ) * x.unit := by
    rw [unit_eq_mul hscale]
    push_cast
    ring
  rw [hlow] at hge hgt
  have hpos := x.unit_pos
  have hgap' := mul_le_mul_of_nonneg_right (Nat.cast_le (α := ℚ).2 hgap) hpos.le
  by_cases hxe : x.mantissa % 2 = 0
  · by_cases hye : y.mantissa % 2 = 0
    · have hstrict := mul_lt_mul_of_pos_right (Nat.cast_lt (α := ℚ).2 (heven hxe hye)) hpos
      linarith
    · have hstrict := (hgt (beq_false_of_ne hye)).1
      linarith
  · have hstrict := (hlt (beq_false_of_ne hxe)).2
    linarith

/-- A number in the interval of a double is in that of no other one with its sign. -/
theorem eq_of_holds {v : ℚ} (hneg : x.negative = y.negative) (hx : x.interval.Holds v)
    (hy : y.interval.Holds v) : x = y := by
  rcases lt_trichotomy x.scale y.scale with hlt | hscale | hgt
  · exact absurd hy (Precedes.not_holds (.inl hlt) hx)
  · rcases lt_trichotomy x.mantissa y.mantissa with hlt | hmantissa | hgt
    · exact absurd hy (Precedes.not_holds (.inr ⟨hscale, hlt⟩) hx)
    · exact eq_of_scale_of_mantissa hneg hscale hmantissa
    · exact absurd hx (Precedes.not_holds (.inr ⟨hscale.symm, hgt⟩) hy)
  · exact absurd hx (Precedes.not_holds (.inl hgt) hy)

end Binary64

end SchemaLoom
