import Mathlib.Data.String.Basic
import SchemaLoom.Document.Canonical
import SchemaLoom.Document.Reader

/-!
# Strings in canonical text

In canonical text every character of a string is written with printable ASCII: as itself, or as an
escape of a letter, of one UTF-16 unit or of a surrogate pair.  Reading a string takes each of
these back, so its quotes enclose the text of one string only.

- `Text.asciiEscape`: a character as it stands in a string of canonical text.
- `Text.readString_asciiEscape`: one character is read back from it.
- `Text.readString_asciiChars`: so is a whole string.
- `Text.asciiQuote_append_inj`: a string and what follows it are told from one text.
- `Text.printable_asciiQuote`: the characters of that text.
-/

namespace SchemaLoom

namespace Text

variable {c : Char} {cs rest : List Char} {n : Nat}

/-! ## Hexadecimal digits -/

theorem digit?_hexDigit {n : Nat} (h : n < 16) : Numeral.digit? 16 (hexDigit n) = some n := by
  have hall : ∀ k : Fin 16, Numeral.digit? 16 (hexDigit k) = some k.val := by decide
  exact hall ⟨n, h⟩

theorem unit?_hex4 (h : n < 0x10000) (rest : List Char) :
    unit? (hex4 n ++ rest) = some (n, rest) := by
  have hvalue : Numeral.value? 16 (hex4 n) = some n := by
    simp only [Numeral.value?, hex4, List.isEmpty_cons, Bool.false_eq_true, if_false,
      Numeral.valueFrom?, digit?_hexDigit (Nat.mod_lt _ (by decide : 0 < 16)), Option.bind_some,
      Option.some_inj]
    omega
  show (Numeral.value? 16 (hex4 n)).map (·, rest) = _
  rw [hvalue, Option.map_some]

/-! ## Characters in UTF-16 -/

theorem isValidChar_toNat (c : Char) :
    c.toNat < 0xD800 ∨ 0xDFFF < c.toNat ∧ c.toNat < 0x110000 :=
  c.valid

theorem character?_toNat (c : Char) : character? c.toNat = some c := by
  have hvalid : c.toNat.isValidChar := c.valid
  rw [character?, if_pos hvalid, Char.ofNat_toNat]

/-- A unit that is not half of a pair is read back as its character. -/
theorem unicodeEscape?_of_lt (h : c.toNat < 0x10000) (rest : List Char) :
    unicodeEscape? (hex4 c.toNat ++ rest) = some (c, rest) := by
  have hsurrogate : ¬ (0xD800 ≤ c.toNat ∧ c.toNat < 0xDC00) := by
    have hvalid := isValidChar_toNat c
    omega
  simp only [unicodeEscape?, unit?_hex4 h, Option.bind_eq_bind, Option.bind_some, if_neg hsurrogate,
    character?_toNat]
  rfl

/-- The two halves of a pair are read back as their character. -/
theorem unicodeEscape?_pair {high low : Nat} (hhigh : 0xD800 ≤ high ∧ high < 0xDC00)
    (hlow : 0xDC00 ≤ low ∧ low < 0xE000)
    (hc : 0x10000 + (high - 0xD800) * 0x400 + (low - 0xDC00) = c.toNat) (rest : List Char) :
    unicodeEscape? (hex4 high ++ (unitEscape low ++ rest)) = some (c, rest) := by
  have hunit : high < 0x10000 := by omega
  have hunit' : low < 0x10000 := by omega
  simp only [unicodeEscape?, unit?_hex4 hunit, Option.bind_eq_bind, Option.bind_some,
    if_pos hhigh, unitEscape, List.cons_append, unit?_hex4 hunit', if_pos hlow, hc,
    character?_toNat]
  rfl

/-- The units of a character are read back as the character. -/
theorem exists_units16_eq (c : Char) (rest : List Char) : ∃ tail,
    (units16 c).flatMap unitEscape ++ rest = '\\' :: 'u' :: tail ∧
      unicodeEscape? tail = some (c, rest) := by
  have hvalid := isValidChar_toNat c
  by_cases hbasic : c.toNat < 0x10000
  · have hunits : units16 c = [c.toNat] := if_pos hbasic
    refine ⟨hex4 c.toNat ++ rest, ?_, unicodeEscape?_of_lt hbasic rest⟩
    rw [hunits]
    rfl
  · have hunits : units16 c = [0xD800 + (c.toNat - 0x10000) / 0x400,
        0xDC00 + (c.toNat - 0x10000) % 0x400] := if_neg hbasic
    rw [hunits]
    generalize hhigh : 0xD800 + (c.toNat - 0x10000) / 0x400 = high
    generalize hlow : 0xDC00 + (c.toNat - 0x10000) % 0x400 = low
    refine ⟨hex4 high ++ (unitEscape low ++ rest), ?_,
      unicodeEscape?_pair (by omega) (by omega) (by omega) rest⟩
    simp [unitEscape]

/-! ## Characters of strings -/

/-- A character as it stands in a string of canonical text. -/
def asciiEscape (c : Char) : List Char :=
  (escape c).flatMap ascii

theorem flatMap_ascii_eq_self {cs : List Char} (h : ∀ c ∈ cs, c.toNat < 0x7F) :
    cs.flatMap ascii = cs := by
  induction cs with
  | nil => rfl
  | cons c cs ih =>
    obtain ⟨hc, hcs⟩ := List.forall_mem_cons.1 h
    rw [List.flatMap_cons, ascii, if_pos hc, ih hcs, List.singleton_append]

theorem printable_of_all {cs : List Char}
    (h : cs.all (fun c => decide (0x20 ≤ c.toNat ∧ c.toNat < 0x7F)) = true) :
    ∀ c ∈ cs, 0x20 ≤ c.toNat ∧ c.toNat < 0x7F :=
  fun c hc => of_decide_eq_true (List.all_eq_true.1 h c hc)

theorem printable_hexDigit {n : Nat} (h : n < 16) :
    0x20 ≤ (hexDigit n).toNat ∧ (hexDigit n).toNat < 0x7F := by
  have hall : ∀ k : Fin 16, 0x20 ≤ (hexDigit k).toNat ∧ (hexDigit k).toNat < 0x7F := by decide
  exact hall ⟨n, h⟩

/-- The escape of a unit is printable ASCII. -/
theorem printable_unitEscape (n : Nat) :
    ∀ c ∈ unitEscape n, 0x20 ≤ c.toNat ∧ c.toNat < 0x7F := by
  have hdigit : ∀ k, 0x20 ≤ (hexDigit (k % 16)).toNat ∧ (hexDigit (k % 16)).toNat < 0x7F :=
    fun k => printable_hexDigit (Nat.mod_lt k (by decide))
  simp [unitEscape, hex4, hdigit]

/-- What a character of a string becomes: the letter of a short escape after a backslash, the
escapes of its units, or itself. -/
theorem asciiEscape_cases (c : Char) :
    (∃ e, asciiEscape c = ['\\', e] ∧ e ≠ 'u' ∧ shortEscape? e = some c) ∨
      asciiEscape c = (units16 c).flatMap unitEscape ∨
      asciiEscape c = [c] ∧ c ≠ '"' ∧ c ≠ '\\' ∧ 0x20 ≤ c.toNat ∧ c.toNat < 0x7F := by
  unfold asciiEscape escape
  split
  next h => exact .inl ⟨'"', by decide, by decide, by rw [h]; rfl⟩
  next hquote =>
  split
  next h => exact .inl ⟨'\\', by decide, by decide, by rw [h]; rfl⟩
  next hbackslash =>
  split
  next h => exact .inl ⟨'n', by decide, by decide, by rw [h]; rfl⟩
  next =>
  split
  next h => exact .inl ⟨'r', by decide, by decide, by rw [h]; rfl⟩
  next =>
  split
  next h => exact .inl ⟨'t', by decide, by decide, by rw [h]; rfl⟩
  next =>
  split
  next h => exact .inl ⟨'b', by decide, by decide, by rw [h]; rfl⟩
  next =>
  split
  next h => exact .inl ⟨'f', by decide, by decide, by rw [h]; rfl⟩
  next =>
  split
  next hcontrol =>
    have hunits : units16 c = [c.toNat] := if_pos (by omega)
    refine .inr (.inl ?_)
    rw [flatMap_ascii_eq_self fun x hx => (printable_unitEscape _ x hx).2, hunits]
    simp
  next hspace =>
    by_cases hascii : c.toNat < 0x7F
    · exact .inr (.inr ⟨flatMap_ascii_eq_self (by simpa using hascii), hquote, hbackslash,
        by omega, hascii⟩)
    · refine .inr (.inl ?_)
      rw [List.flatMap_singleton, ascii, if_neg hascii]

/-- One character is read back from its text. -/
theorem readString_asciiEscape (fuel : Nat) (c : Char) (rest acc : List Char) :
    readString (fuel + 1) (asciiEscape c ++ rest) acc = readString fuel rest (c :: acc) := by
  rcases asciiEscape_cases c with ⟨e, he, hu, hshort⟩ | hunits | ⟨hself, hquote, hback, hspace, -⟩
  · rw [he]
    show readString (fuel + 1) ('\\' :: e :: rest) acc = _
    rw [readString, if_neg (by decide), if_pos rfl, hshort, Option.bind_some]
    exact hu
  · obtain ⟨tail, htail, hread⟩ := exists_units16_eq c rest
    rw [hunits, htail, readString, if_neg (by decide), if_pos rfl]
    show (unicodeEscape? tail).bind (fun p => readString fuel p.2 (p.1 :: acc)) = _
    rw [hread, Option.bind_some]
  · rw [hself, List.singleton_append, readString.eq_def]
    dsimp only
    rw [if_neg hquote, if_neg hback, if_neg (by omega)]

/-- A string is read back from its text, up to the quote that closes it. -/
theorem readString_asciiChars (cs rest : List Char) {fuel : Nat} (h : cs.length < fuel)
    (acc : List Char) : readString fuel (cs.flatMap asciiEscape ++ '"' :: rest) acc =
      some (String.ofList (acc.reverse ++ cs), rest) := by
  induction cs generalizing fuel acc with
  | nil =>
    obtain ⟨fuel, rfl⟩ := Nat.exists_eq_add_one.2 h
    rw [List.append_nil]
    rfl
  | cons c cs ih =>
    obtain ⟨fuel, rfl⟩ := Nat.exists_eq_add_one.2 (Nat.zero_lt_of_lt h)
    rw [List.flatMap_cons, List.append_assoc, readString_asciiEscape,
      ih (Nat.lt_of_succ_lt_succ h), List.reverse_cons, List.append_assoc, List.singleton_append]

/-! ## Quoted strings -/

/-- A string in quotes as it stands in canonical text. -/
def asciiQuote (s : String) : List Char :=
  (quote s).flatMap ascii

theorem asciiQuote_eq (s : String) :
    asciiQuote s = '"' :: (s.toList.flatMap asciiEscape ++ ['"']) := by
  have hquote : ascii '"' = ['"'] := if_pos (by decide)
  simp only [asciiQuote, quote, List.flatMap_cons, List.flatMap_append, List.flatMap_assoc,
    List.flatMap_nil, hquote]
  rfl

/-- Strings are one if their texts are, and what follows them is too. -/
theorem asciiQuote_append_inj {s t : String} {r r' : List Char}
    (h : asciiQuote s ++ r = asciiQuote t ++ r') : s = t ∧ r = r' := by
  have hread : ∀ (u : String) (rest : List Char) (fuel : Nat), u.toList.length < fuel →
      readString fuel ((asciiQuote u ++ rest).drop 1) [] = some (u, rest) := by
    intro u rest fuel hfuel
    have := readString_asciiChars u.toList rest hfuel []
    rw [asciiQuote_eq]
    simpa using this
  have hs := hread s r (s.toList.length + t.toList.length + 1) (by omega)
  have ht := hread t r' (s.toList.length + t.toList.length + 1) (by omega)
  rw [h, ht] at hs
  simpa [eq_comm] using hs

/-! ## Printable characters -/

theorem space_le_escape (c : Char) : ∀ x ∈ escape c, 0x20 ≤ x.toNat := by
  unfold escape
  -- the seven short escapes, then the characters below the space, then the others
  iterate 7
    split
    · exact List.forall_mem_cons.2 ⟨by decide, List.forall_mem_singleton.2 (by decide)⟩
  split
  · exact fun x hx => (printable_unitEscape _ x hx).1
  next hspace => exact List.forall_mem_singleton.2 (Nat.le_of_not_lt hspace)

theorem space_le_quote (s : String) : ∀ x ∈ quote s, 0x20 ≤ x.toNat := by
  refine List.forall_mem_cons.2 ⟨by decide, List.forall_mem_append.2
    ⟨fun x hx => ?_, List.forall_mem_singleton.2 (by decide)⟩⟩
  obtain ⟨c, -, hx⟩ := List.mem_flatMap.1 hx
  exact space_le_escape c x hx

theorem printable_ascii (h : 0x20 ≤ c.toNat) :
    ∀ x ∈ ascii c, 0x20 ≤ x.toNat ∧ x.toNat < 0x7F := by
  unfold ascii
  split
  next hascii => exact List.forall_mem_singleton.2 ⟨h, hascii⟩
  next =>
    intro x hx
    obtain ⟨n, -, hx⟩ := List.mem_flatMap.1 hx
    exact printable_unitEscape n x hx

/-- A string in canonical text is printable ASCII. -/
theorem printable_asciiQuote (s : String) :
    ∀ c ∈ asciiQuote s, 0x20 ≤ c.toNat ∧ c.toNat < 0x7F := by
  intro c hc
  obtain ⟨x, hx, hc⟩ := List.mem_flatMap.1 hc
  exact printable_ascii (space_le_quote s x hx) c hc

end Text

end SchemaLoom
