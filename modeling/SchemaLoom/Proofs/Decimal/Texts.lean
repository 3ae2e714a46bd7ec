import SchemaLoom.Decimal.Layout
import SchemaLoom.Decimal.Numeral
import SchemaLoom.Proofs.Decimal.Rounding
import SchemaLoom.Proofs.Document.Canonical
import SchemaLoom.Proofs.Identity
import SchemaLoom.Proofs.Numeral

/-!
# The texts of doubles

Whatever a layout decides, the text of a double is read as the shortest decimal of the double, so
no two doubles have one text.

- `Literal.Spells`: a literal writes some digits from the place of a given power of ten on.
- `Layout.spells_positional`, `Layout.spells_scientific`: both forms do.
- `Layout.signChars_append_inj`: a sign and the digits after it are told from one text.
- `Layout.write_inj`: different doubles have different texts.
- `Layout.isNumeralChar_of_mem_write`: the characters of these texts.
-/

namespace SchemaLoom

open ReferenceKind (span_eq_iff)

/-! ## Digits that a literal spells -/

theorem Numeral.decimalValue_eq {cs : List Char} (h : ∀ c ∈ cs, c.isDigit = true) :
    decimalValue cs = Nat.ofDigitChars 10 cs 0 := by
  suffices hfrom : ∀ n, cs.foldl (fun n c => 10 * n + (digit? 10 c).getD 0) n =
      Nat.ofDigitChars 10 cs n from hfrom 0
  induction cs with
  | nil => exact fun n => rfl
  | cons c cs ih =>
    obtain ⟨hc, hcs⟩ := List.forall_mem_cons.1 h
    intro n
    rw [List.foldl_cons, ih hcs, digit?_of_isDigit hc, Option.getD_some, Nat.ofDigitChars_cons]

namespace Literal

variable {l : Literal} {ws fs ds rest : List Char} {lead : Int}

/-- The literal holds the digits, with zeros around them, and the first one of them stands for its
multiple of a power of ten. -/
structure Spells (l : Literal) (ds : List Char) (lead : Int) : Prop where
  ne_nil : l.whole ≠ []
  digits : ∃ before after : Nat,
    l.whole ++ l.fraction = List.replicate before '0' ++ (ds ++ List.replicate after '0') ∧
      l.whole.length - before + l.exponent.getD 0 = lead + 1

/-- The value of a literal is that of the digits that it spells. -/
theorem Spells.value (h : l.Spells ds lead) (hds : ∀ c ∈ ds, c.isDigit = true) :
    l.decimal.value = (Nat.ofDigitChars 10 ds 0 : ℕ) * 10 ^ (lead + 1 - ds.length) := by
  obtain ⟨-, before, after, hdigits, hlead⟩ := h
  have hall : ∀ c ∈ l.whole ++ l.fraction, c.isDigit = true := by
    rw [hdigits]
    intro c hc
    rcases List.mem_append.1 hc with hc | hc
    · rw [List.eq_of_mem_replicate hc]
      rfl
    · rcases List.mem_append.1 hc with hc | hc
      · exact hds c hc
      · rw [List.eq_of_mem_replicate hc]
        rfl
  have hvalue : Numeral.decimalValue (l.whole ++ l.fraction) =
      10 ^ after * Nat.ofDigitChars 10 ds 0 := by
    rw [Numeral.decimalValue_eq hall, hdigits, Nat.ofDigitChars_append, Nat.ofDigitChars_append,
      Nat.ofDigitChars_replicate_zero, Nat.ofDigitChars_replicate_zero, Nat.mul_zero]
  have hlength := congrArg List.length hdigits
  simp only [List.length_append, List.length_replicate] at hlength
  rw [decimal, Decimal.value, hvalue]
  push_cast
  rw [mul_comm ((10 : ℚ) ^ after), mul_assoc, ← zpow_natCast, ← zpow_add₀ (by norm_num)]
  congr 2
  omega

/-! ## Scanning -/

/-- A text with a point after its first digits. -/
theorem scan_point (hws : ∀ c ∈ ws, c.isDigit = true) (hfs : ∀ c ∈ fs, c.isDigit = true)
    (hrest : ∀ c ∈ rest.head?, c.isDigit = false) :
    (scan (ws ++ '.' :: (fs ++ rest))).1 = ⟨ws, true, fs, (scanExponent rest).1⟩ := by
  have hpoint : ∀ c ∈ ('.' :: (fs ++ rest)).head?, c.isDigit = false := by
    rintro c ⟨⟩
    rfl
  obtain ⟨hwhole, htail⟩ := span_eq_iff.2 ⟨rfl, hws, hpoint⟩
  obtain ⟨hfraction, hend⟩ := span_eq_iff.2 ⟨rfl, hfs, hrest⟩
  simp only [scan, hwhole, htail, hfraction, hend]

/-- A text with a point and nothing after its fraction. -/
theorem scan_fraction (hws : ∀ c ∈ ws, c.isDigit = true) (hfs : ∀ c ∈ fs, c.isDigit = true) :
    (scan (ws ++ '.' :: fs)).1 = ⟨ws, true, fs, none⟩ := by
  have hend : ∀ c ∈ ([] : List Char).head?, c.isDigit = false := nofun
  have hscan := scan_point hws hfs hend
  rwa [List.append_nil] at hscan

/-- A text with an exponent after its first digits. -/
theorem scan_exponent (hws : ∀ c ∈ ws, c.isDigit = true) :
    (scan (ws ++ 'e' :: rest)).1 = ⟨ws, false, [], (scanExponent ('e' :: rest)).1⟩ := by
  have hmark : ∀ c ∈ ('e' :: rest).head?, c.isDigit = false := by
    rintro c ⟨⟩
    rfl
  obtain ⟨hwhole, htail⟩ := span_eq_iff.2 ⟨rfl, hws, hmark⟩
  simp only [scan, hwhole, htail]
  rfl

/-- An exponent is read from its digits, whatever its sign. -/
theorem scanExponent_eq {n : Nat} (h : Numeral.IsDecimal ds n) :
    (scanExponent ('e' :: ds)).1 = some (n : Int) ∧
      (scanExponent ('e' :: '+' :: ds)).1 = some (n : Int) ∧
      (scanExponent ('e' :: '-' :: ds)).1 = some (-n : Int) := by
  have hrun : ds.takeWhile Char.isDigit = ds := List.takeWhile_eq_self_iff.2 h.isDigit
  have hempty : ds.isEmpty = false := List.isEmpty_eq_false_iff.2 h.ne_nil
  have hvalue : Numeral.decimalValue ds = n := by
    rw [Numeral.decimalValue_eq h.isDigit, h.value]
  -- the first digit is not taken for a sign
  have hminus : ∀ r, ds ≠ '-' :: r := fun r hr => by
    cases h.isDigit '-' (hr ▸ List.mem_cons_self)
  have hplus : ∀ r, ds ≠ '+' :: r := fun r hr => by
    cases h.isDigit '+' (hr ▸ List.mem_cons_self)
  simp [scanExponent, hrun, hempty, hvalue]

end Literal

namespace Layout

open Literal Binary64

variable {ds : List Char} {lead : Int}

theorem isDigit_of_mem_zeros {n : Nat} : ∀ c ∈ List.replicate n '0', c.isDigit = true := by
  intro c hc
  rw [List.eq_of_mem_replicate hc]
  rfl

/-- Digits after the point, with zeros between the point and them. -/
theorem spells_fraction (hneg : lead < 0) (hds : ∀ c ∈ ds, c.isDigit = true) :
    (scan (['0'] ++ '.' :: (List.replicate (lead.natAbs - 1) '0' ++ ds))).1.Spells ds lead := by
  have hws : ∀ c ∈ ['0'], c.isDigit = true := List.forall_mem_singleton.2 rfl
  have hfs : ∀ c ∈ List.replicate (lead.natAbs - 1) '0' ++ ds, c.isDigit = true :=
    List.forall_mem_append.2 ⟨isDigit_of_mem_zeros, hds⟩
  rw [scan_fraction hws hfs]
  refine ⟨by simp, lead.natAbs, 0, ?_, ?_⟩
  · have hsucc : lead.natAbs = lead.natAbs - 1 + 1 := by omega
    rw [hsucc, List.replicate_succ]
    simp
  · simp only [List.length_singleton, Option.getD_none]
    omega

/-- Digits before the point, with zeros after them as far as the point, and those left after it. -/
theorem spells_padded {whole zeros : Nat} (hwhole : (whole : Int) = lead + 1) (hpos : 0 < whole)
    (hzeros : whole ≤ ds.length + zeros) (hds : ∀ c ∈ ds, c.isDigit = true) {padded : List Char}
    (hpadded : ds ++ List.replicate zeros '0' = padded) :
    (scan (padded.take whole ++ '.' :: (if (padded.drop whole).isEmpty then ['0'] else
      padded.drop whole))).1.Spells ds lead := by
  have hdigits : ∀ c ∈ padded, c.isDigit = true := by
    rw [← hpadded]
    exact List.forall_mem_append.2 ⟨hds, isDigit_of_mem_zeros⟩
  have hlength : (padded.take whole).length = whole := by
    rw [List.length_take, ← hpadded, List.length_append, List.length_replicate]
    omega
  -- a fraction without digits is written as a zero
  obtain ⟨extra, hfraction⟩ : ∃ extra, (if (padded.drop whole).isEmpty then ['0'] else
      padded.drop whole) = padded.drop whole ++ List.replicate extra '0' := by
    split
    next hempty => exact ⟨1, by rw [List.isEmpty_iff.1 hempty]; rfl⟩
    next => exact ⟨0, (List.append_nil _).symm⟩
  have hws : ∀ c ∈ padded.take whole, c.isDigit = true :=
    fun c hc => hdigits c (List.mem_of_mem_take hc)
  have hfs : ∀ c ∈ padded.drop whole ++ List.replicate extra '0', c.isDigit = true :=
    List.forall_mem_append.2
      ⟨fun c hc => hdigits c (List.mem_of_mem_drop hc), isDigit_of_mem_zeros⟩
  rw [hfraction, scan_fraction hws hfs]
  refine ⟨List.ne_nil_of_length_pos (hlength.symm ▸ hpos), 0, zeros + extra, ?_, ?_⟩
  · rw [← List.append_assoc, List.take_append_drop, ← hpadded, ← List.replicate_append_replicate]
    simp
  · rw [hlength]
    simp only [Option.getD_none]
    omega

theorem spells_positional (hds : ∀ c ∈ ds, c.isDigit = true) :
    (scan (writePositional ds lead)).1.Spells ds lead := by
  unfold writePositional
  split
  next hneg => exact spells_fraction hneg hds
  next hpos => exact spells_padded (by omega) (Nat.succ_pos _) (by omega) hds rfl

/-- The exponent of the scientific form. -/
def exponentChars (l : Layout) (lead : Int) : List Char :=
  'e' :: ((if lead < 0 then ['-'] else if l.exponentPlus then ['+'] else []) ++
    Nat.toDigits 10 lead.natAbs)

theorem writeScientific_singleton (l : Layout) (c : Char) :
    l.writeScientific [c] lead = [c] ++ l.exponentChars lead := by
  simp [writeScientific, exponentChars]

theorem writeScientific_cons (l : Layout) (c d : Char) (ds : List Char) :
    l.writeScientific (c :: d :: ds) lead = [c] ++ '.' :: ((d :: ds) ++ l.exponentChars lead) := by
  simp [writeScientific, exponentChars]

theorem scanExponent_exponentChars (l : Layout) (lead : Int) :
    (scanExponent (l.exponentChars lead)).1 = some lead := by
  obtain ⟨hnone, hplus, hminus⟩ := scanExponent_eq (.toDigits lead.natAbs)
  unfold exponentChars
  split
  next hneg =>
    rw [List.singleton_append, hminus]
    congr 1
    omega
  next hpos =>
    have habs : (lead.natAbs : Int) = lead := by omega
    split
    · rw [List.singleton_append, hplus, habs]
    · rw [List.nil_append, hnone, habs]

theorem spells_scientific (l : Layout) (hne : ds ≠ []) (hds : ∀ c ∈ ds, c.isDigit = true) :
    (scan (l.writeScientific ds lead)).1.Spells ds lead := by
  cases ds with
  | nil => exact absurd rfl hne
  | cons c ds =>
    obtain ⟨hc, hds⟩ := List.forall_mem_cons.1 hds
    have hws : ∀ x ∈ [c], x.isDigit = true := List.forall_mem_singleton.2 hc
    cases ds with
    | nil =>
      rw [writeScientific_singleton, exponentChars, scan_exponent hws, ← exponentChars,
        scanExponent_exponentChars]
      refine ⟨List.cons_ne_nil c [], 0, 0, rfl, ?_⟩
      simp
      omega
    | cons d ds =>
      have hmark : ∀ x ∈ (l.exponentChars lead).head?, x.isDigit = false := by
        rintro x ⟨⟩
        rfl
      rw [writeScientific_cons, scan_point hws hds hmark, scanExponent_exponentChars]
      refine ⟨List.cons_ne_nil c [], 0, 0, by simp, ?_⟩
      simp
      omega

/-! ## The digits that are written -/

/-- The significant digits are those of the decimal up to zeros at their end. -/
theorem toDigits_eq_significant (d : Decimal) :
    ∃ zeros, Nat.toDigits 10 d.digits = significant d ++ List.replicate zeros '0' := by
  refine ⟨((Nat.toDigits 10 d.digits).reverse.takeWhile (· == '0')).length, ?_⟩
  have hzeros : (Nat.toDigits 10 d.digits).reverse.takeWhile (· == '0') =
      List.replicate ((Nat.toDigits 10 d.digits).reverse.takeWhile (· == '0')).length '0' :=
    List.eq_replicate_iff.2 ⟨rfl, fun c hc => by simpa using List.mem_takeWhile_imp hc⟩
  have hreverse := congrArg List.reverse
    (List.takeWhile_append_dropWhile (p := (· == '0')) (l := (Nat.toDigits 10 d.digits).reverse))
  rw [List.reverse_append, List.reverse_reverse, hzeros, List.reverse_replicate] at hreverse
  exact hreverse.symm

theorem isDigit_of_mem_significant (d : Decimal) : ∀ c ∈ significant d, c.isDigit = true := by
  obtain ⟨zeros, hdigits⟩ := toDigits_eq_significant d
  intro c hc
  refine (Numeral.IsDecimal.toDigits d.digits).isDigit c ?_
  rw [hdigits]
  exact List.mem_append_left _ hc

theorem significant_ne_nil {d : Decimal} (h : 0 < d.digits) : significant d ≠ [] := by
  obtain ⟨zeros, hdigits⟩ := toDigits_eq_significant d
  intro hnil
  have hvalue := (Numeral.IsDecimal.toDigits d.digits).value
  rw [hdigits, hnil, List.nil_append, Nat.ofDigitChars_replicate_zero, Nat.mul_zero] at hvalue
  omega

/-- The significant digits, at the place of the leading one, stand for the decimal. -/
theorem value_significant (d : Decimal) :
    (Nat.ofDigitChars 10 (significant d) 0 : ℕ) * 10 ^ (leading d + 1 - (significant d).length) =
      d.value := by
  obtain ⟨zeros, hdigits⟩ := toDigits_eq_significant d
  have hvalue := (Numeral.IsDecimal.toDigits d.digits).value
  have hlength := congrArg List.length hdigits
  rw [List.length_append, List.length_replicate] at hlength
  rw [hdigits, Nat.ofDigitChars_append, Nat.ofDigitChars_replicate_zero] at hvalue
  rw [Decimal.value, ← hvalue, leading, hlength]
  push_cast
  rw [mul_comm ((10 : ℚ) ^ zeros), mul_assoc, ← zpow_natCast, ← zpow_add₀ (by norm_num)]
  congr 2
  omega

/-! ## Signs -/

/-- A text whose first character is a digit. -/
def BeginsWithDigit (cs : List Char) : Prop :=
  ∃ c tail, cs = c :: tail ∧ c.isDigit = true

theorem beginsWithDigit_of_isDigit {cs : List Char} (hne : cs ≠ [])
    (h : ∀ c ∈ cs, c.isDigit = true) : BeginsWithDigit cs := by
  obtain ⟨c, tail, rfl⟩ := List.exists_cons_of_ne_nil hne
  exact ⟨c, tail, rfl, h c List.mem_cons_self⟩

/-- The mark of a negative number. -/
def signChars (negative : Bool) : List Char :=
  if negative then ['-'] else []

/-- A sign and the digits that follow it are told from one text. -/
theorem signChars_append_inj {s t : Bool} {cs ds : List Char} (hcs : BeginsWithDigit cs)
    (hds : BeginsWithDigit ds) (h : signChars s ++ cs = signChars t ++ ds) : s = t ∧ cs = ds := by
  obtain ⟨c, cs, rfl, hc⟩ := hcs
  obtain ⟨d, ds, rfl, hd⟩ := hds
  cases s with
  | true =>
    cases t with
    | true => exact ⟨rfl, (List.cons.inj h).2⟩
    | false =>
      rw [← (List.cons.inj h).1] at hd
      cases hd
  | false =>
    cases t with
    | true =>
      rw [(List.cons.inj h).1] at hc
      cases hc
    | false => exact ⟨rfl, h⟩

/-! ## The text of a double -/

variable {x y : Binary64}

/-- The text of a double without its sign. -/
def magnitudeChars (l : Layout) (x : Binary64) : List Char :=
  if x.isZero then ['0', '.', '0']
  else if l.positional.1 ≤ leading x.shortest ∧ leading x.shortest ≤ l.positional.2 then
    writePositional (significant x.shortest) (leading x.shortest)
  else l.writeScientific (significant x.shortest) (leading x.shortest)

theorem write_eq (l : Layout) (x : Binary64) :
    l.write x = signChars x.negative ++ l.magnitudeChars x := by
  rw [write, magnitudeChars, signChars]
  by_cases h : x.isZero = true
  · simp only [if_pos h]
  · simp only [if_neg h]

theorem spells_magnitudeChars (l : Layout) (h : x.isZero = false) :
    (scan (l.magnitudeChars x)).1.Spells (significant x.shortest) (leading x.shortest) := by
  have hdigits := isDigit_of_mem_significant x.shortest
  rw [magnitudeChars, h, if_neg Bool.false_ne_true]
  split
  · exact spells_positional hdigits
  · exact spells_scientific l (significant_ne_nil (digits_shortest_pos h)) hdigits

/-- The text of a double without its sign is read as the shortest decimal of the double. -/
theorem value_magnitudeChars (l : Layout) (x : Binary64) :
    (scan (l.magnitudeChars x)).1.decimal.value =
      if x.isZero then 0 else x.shortest.value := by
  cases h : x.isZero with
  | true =>
    rw [magnitudeChars, h, if_pos rfl, if_pos rfl]
    show Decimal.value ⟨0, -1⟩ = 0
    rw [Decimal.value, Nat.cast_zero, zero_mul]
  | false =>
    rw [(spells_magnitudeChars l h).value (isDigit_of_mem_significant _), value_significant]
    rfl

theorem beginsWithDigit_magnitudeChars (l : Layout) (x : Binary64) :
    BeginsWithDigit (l.magnitudeChars x) := by
  have hwhole : (l.magnitudeChars x).takeWhile Char.isDigit ≠ [] := by
    cases h : x.isZero with
    | true =>
      rw [magnitudeChars, h, if_pos rfl]
      decide
    | false => exact (spells_magnitudeChars l h).ne_nil
  cases hcs : l.magnitudeChars x with
  | nil => exact absurd (by rw [hcs]; rfl) hwhole
  | cons c cs =>
    refine ⟨c, cs, rfl, by_contra fun hc => hwhole ?_⟩
    rw [hcs, List.takeWhile_cons_of_neg hc]

theorem magnitudeChars_inj {l : Layout} (hneg : x.negative = y.negative)
    (h : l.magnitudeChars x = l.magnitudeChars y) : x = y := by
  have hvalue : (if x.isZero then 0 else x.shortest.value) =
      if y.isZero then 0 else y.shortest.value := by
    rw [← value_magnitudeChars l, ← value_magnitudeChars l, h]
  cases hx : x.isZero with
  | true =>
    cases hy : y.isZero with
    | true => rw [eq_zero_of_isZero hx, eq_zero_of_isZero hy, hneg]
    | false =>
      simp only [hx, hy, if_true, Bool.false_eq_true, if_false] at hvalue
      exact absurd hvalue (value_shortest_pos hy).ne
  | false =>
    cases hy : y.isZero with
    | true =>
      simp only [hx, hy, if_true, Bool.false_eq_true, if_false] at hvalue
      exact absurd hvalue (value_shortest_pos hx).ne'
    | false =>
      simp only [hx, hy, Bool.false_eq_true, if_false] at hvalue
      have hholds := holds_shortest hy
      rw [← hvalue] at hholds
      exact eq_of_holds hneg (holds_shortest hx) hholds

/-- Different doubles have different texts. -/
theorem write_inj {l : Layout} (h : l.write x = l.write y) : x = y := by
  rw [write_eq, write_eq] at h
  obtain ⟨hneg, hmagnitude⟩ := signChars_append_inj (l.beginsWithDigit_magnitudeChars x)
    (l.beginsWithDigit_magnitudeChars y) h
  exact magnitudeChars_inj hneg hmagnitude

/-! ## The characters of a text -/

/-- The characters of numbers. -/
def isNumeralChar (c : Char) : Bool :=
  c.isDigit || c == '-' || c == '+' || c == '.' || c == 'e'

theorem isNumeralChar_of_isDigit {cs : List Char} (h : ∀ c ∈ cs, c.isDigit = true) :
    ∀ c ∈ cs, isNumeralChar c = true := by
  intro c hc
  simp [isNumeralChar, h c hc]

theorem printable_of_isNumeralChar {c : Char} (h : isNumeralChar c = true) :
    0x20 ≤ c.toNat ∧ c.toNat < 0x7F := by
  simp only [isNumeralChar, Bool.or_eq_true, beq_iff_eq] at h
  rcases h with (((h | rfl) | rfl) | rfl) | rfl
  · have hbounds : 48 ≤ c.toNat ∧ c.toNat ≤ 57 := Char.isDigit_iff_toNat.1 h
    omega
  all_goals decide

theorem isNumeralChar_positional (hds : ∀ c ∈ ds, c.isDigit = true) :
    ∀ c ∈ writePositional ds lead, isNumeralChar c = true := by
  unfold writePositional
  split
  · exact List.forall_mem_cons.2 ⟨rfl, List.forall_mem_cons.2 ⟨rfl, isNumeralChar_of_isDigit
      (List.forall_mem_append.2 ⟨isDigit_of_mem_zeros, hds⟩)⟩⟩
  · dsimp only
    generalize lead.toNat + 1 = whole
    have hpadded : ∀ c ∈ ds ++ List.replicate (whole - ds.length) '0', c.isDigit = true :=
      List.forall_mem_append.2 ⟨hds, isDigit_of_mem_zeros⟩
    refine List.forall_mem_append.2 ⟨?_, List.forall_mem_cons.2 ⟨rfl, ?_⟩⟩
    · exact isNumeralChar_of_isDigit fun c hc => hpadded c (List.mem_of_mem_take hc)
    · split
      · exact List.all_eq_true.1 (by decide)
      · exact isNumeralChar_of_isDigit fun c hc => hpadded c (List.mem_of_mem_drop hc)

theorem isNumeralChar_exponentChars (l : Layout) (lead : Int) :
    ∀ c ∈ l.exponentChars lead, isNumeralChar c = true := by
  refine List.forall_mem_cons.2 ⟨rfl, List.forall_mem_append.2 ⟨?_, ?_⟩⟩
  · split
    · exact List.all_eq_true.1 (by decide)
    · split
      · exact List.all_eq_true.1 (by decide)
      · exact List.all_eq_true.1 (by decide)
  · exact isNumeralChar_of_isDigit (Numeral.IsDecimal.toDigits _).isDigit

theorem isNumeralChar_scientific (l : Layout) (hne : ds ≠ []) (hds : ∀ c ∈ ds, c.isDigit = true) :
    ∀ c ∈ l.writeScientific ds lead, isNumeralChar c = true := by
  have hexponent := l.isNumeralChar_exponentChars lead
  have hds := isNumeralChar_of_isDigit hds
  cases ds with
  | nil => exact absurd rfl hne
  | cons c ds =>
    cases ds with
    | nil =>
      rw [writeScientific_singleton]
      exact List.forall_mem_append.2 ⟨hds, hexponent⟩
    | cons d ds =>
      obtain ⟨hc, hds⟩ := List.forall_mem_cons.1 hds
      rw [writeScientific_cons]
      exact List.forall_mem_cons.2 ⟨hc, List.forall_mem_cons.2
        ⟨rfl, List.forall_mem_append.2 ⟨hds, hexponent⟩⟩⟩

theorem isNumeralChar_of_mem_write (l : Layout) (x : Binary64) :
    ∀ c ∈ l.write x, isNumeralChar c = true := by
  have hdigits := isDigit_of_mem_significant x.shortest
  rw [write_eq]
  refine List.forall_mem_append.2 ⟨?_, ?_⟩
  · cases x.negative <;> exact List.all_eq_true.1 (by decide)
  · unfold magnitudeChars
    split
    next => exact List.all_eq_true.1 (by decide)
    next hzero =>
      split
      · exact isNumeralChar_positional hdigits
      · exact l.isNumeralChar_scientific
          (significant_ne_nil (digits_shortest_pos (Bool.eq_false_iff.2 hzero))) hdigits

/-- The text of a double has a point or an exponent, so it is not that of an integer. -/
theorem exists_mark_mem_write (l : Layout) (x : Binary64) :
    ∃ c ∈ l.write x, c = '.' ∨ c = 'e' := by
  suffices hmark : ∃ c ∈ l.magnitudeChars x, c = '.' ∨ c = 'e' by
    obtain ⟨c, hc, hmark⟩ := hmark
    exact ⟨c, write_eq l x ▸ List.mem_append_right _ hc, hmark⟩
  unfold magnitudeChars
  split
  · exact ⟨'.', by decide, .inl rfl⟩
  · split
    · refine ⟨'.', ?_, .inl rfl⟩
      unfold writePositional
      split <;> simp
    · refine ⟨'e', ?_, .inr rfl⟩
      simp [writeScientific]

end Layout

end SchemaLoom
