import SchemaLoom.Proofs.Location

/-!
# Digits and leading zeros

A number has one spelling without leading zeros, and every other spelling differs from it by these.

- `Numeral.toDigits_append_of_isDigit`: digits after a number that is not zero continue its digits.
- `Numeral.withoutLeadingZeros`: digits without the zeros before the first other digit.
- `Numeral.IsDecimal.toDigits_eq`: the digits of a number are those of any spelling of it, without
  the leading zeros.
-/

namespace SchemaLoom

namespace Numeral

/-- A digit is the digit of its value. -/
theorem digitChar_of_isDigit {c : Char} (h : c.isDigit = true) :
    Nat.digitChar (c.toNat - '0'.toNat) = c := by
  have hc : 48 ≤ c.toNat ∧ c.toNat ≤ 57 := Char.isDigit_iff_toNat.1 h
  have h0 : '0'.toNat = 48 := rfl
  refine Char.toNat_inj.1 ?_
  rw [Nat.toNat_digitChar_of_lt_ten (by omega)]
  omega

/-- Digits after a number that is not zero continue the digits of the number. -/
theorem toDigits_append_of_isDigit {ds : List Char} (h : ∀ c ∈ ds, c.isDigit = true) {n : Nat}
    (hn : 0 < n) : Nat.toDigits 10 n ++ ds = Nat.toDigits 10 (Nat.ofDigitChars 10 ds n) := by
  induction ds generalizing n with
  | nil => rw [List.append_nil, Nat.ofDigitChars_nil]
  | cons c ds ih =>
    obtain ⟨hc, hds⟩ := List.forall_mem_cons.1 h
    have hle : c.toNat ≤ 57 := (Char.isDigit_iff_toNat.1 hc).2
    have h0 : '0'.toNat = 48 := rfl
    have hlt : c.toNat - '0'.toNat < 10 := by omega
    have hstep : Nat.toDigits 10 n ++ [c] = Nat.toDigits 10 (10 * n + (c.toNat - '0'.toNat)) := by
      rw [← Nat.toDigits_append_toDigits (by decide) hn hlt, Nat.toDigits_of_lt_base hlt,
        digitChar_of_isDigit hc]
    calc
      Nat.toDigits 10 n ++ c :: ds = (Nat.toDigits 10 n ++ [c]) ++ ds := by simp
      _ = Nat.toDigits 10 (10 * n + (c.toNat - '0'.toNat)) ++ ds := by rw [hstep]
      _ = Nat.toDigits 10 (Nat.ofDigitChars 10 (c :: ds) n) := by
        rw [ih hds (by omega), Nat.ofDigitChars_cons]

/-- Digits without the zeros at their head, but with one digit at least. -/
def withoutLeadingZeros (ds : List Char) : List Char :=
  match ds.dropWhile (· == '0') with
  | [] => ['0']
  | rest => rest

theorem ofDigitChars_dropWhile_zero (ds : List Char) :
    Nat.ofDigitChars 10 (ds.dropWhile (· == '0')) 0 = Nat.ofDigitChars 10 ds 0 := by
  induction ds with
  | nil => rfl
  | cons c ds ih =>
    by_cases hc : c = '0'
    · subst hc
      rw [List.dropWhile_cons_of_pos (by rfl), ih, Nat.ofDigitChars_cons]
      rfl
    · rw [List.dropWhile_cons_of_neg (by simpa using hc)]

/-- The digits of a number are those of any of its spellings without the leading zeros. -/
theorem IsDecimal.toDigits_eq {ds : List Char} {n : Nat} (h : IsDecimal ds n) :
    Nat.toDigits 10 n = withoutLeadingZeros ds := by
  rw [← h.value, ← ofDigitChars_dropWhile_zero, withoutLeadingZeros]
  have hhead := List.head?_dropWhile_not (· == '0') ds
  have hdigits : ∀ c ∈ ds.dropWhile (· == '0'), c.isDigit = true :=
    fun c hc => h.isDigit c ((List.dropWhile_suffix _).subset hc)
  cases hdrop : ds.dropWhile (· == '0') with
  | nil => rfl
  | cons c rest =>
    rw [hdrop] at hhead hdigits
    obtain ⟨hc, hrest⟩ := List.forall_mem_cons.1 hdigits
    have hbounds : 48 ≤ c.toNat ∧ c.toNat ≤ 57 := Char.isDigit_iff_toNat.1 hc
    have h0 : '0'.toNat = 48 := rfl
    have hne : c.toNat ≠ '0'.toNat := fun hzero => by
      rw [Char.toNat_inj.1 hzero] at hhead
      simp at hhead
    rw [Nat.ofDigitChars_cons, Nat.mul_zero, Nat.zero_add,
      ← toDigits_append_of_isDigit hrest (by omega), Nat.toDigits_of_lt_base (by omega),
      digitChar_of_isDigit hc]
    rfl

end Numeral

end SchemaLoom
