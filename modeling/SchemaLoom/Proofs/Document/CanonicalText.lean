import SchemaLoom.Proofs.Decimal.Texts
import SchemaLoom.Proofs.Document.Strings

/-!
# Reading documents off their canonical text

The canonical text of a document can be read in one way only: the first character tells the shape of
a value, a string ends at its quote, a number at the first character that no number holds, and a
list at its bracket.  So canonical texts stand for documents up to equality.

- `Number.chars_inj`: different numbers have different texts.
- `Readable`: an entry and what follows it are told from one text.
- `separated_append_inj`: so are the entries of a list, if each of them is.
- `Document.readable`: and so is every document.
- `Document.equal_sortKeys`: sorting its members keeps a document equal to what it was.
- `Document.canonical_faithful`: documents with one canonical text are equal, and equal documents
  have one text, of printable characters.
-/

namespace SchemaLoom

open ReferenceKind (span_eq_iff)
open Layout (isNumeralChar signChars signChars_append_inj BeginsWithDigit
  beginsWithDigit_of_isDigit)

/-! ## Numbers -/

namespace Number

variable {m n : Number}

theorem chars_int (k : Int) :
    chars (.int k) = signChars (decide (k < 0)) ++ Nat.toDigits 10 k.natAbs := by
  cases k with
  | ofNat i =>
    have hneg : ¬ Int.ofNat i < 0 := Int.not_lt_of_ge (Int.natCast_nonneg i)
    rw [decide_eq_false hneg]
    rfl
  | negSucc i =>
    rw [decide_eq_true (Int.negSucc_lt_zero i)]
    rfl

theorem beginsWithDigit_toDigits (i : Nat) : BeginsWithDigit (Nat.toDigits 10 i) :=
  beginsWithDigit_of_isDigit (Numeral.IsDecimal.toDigits i).ne_nil
    (Numeral.IsDecimal.toDigits i).isDigit

/-- The text of a number is a sign and a text that begins with a digit. -/
theorem exists_signChars_append (n : Number) :
    ∃ negative cs, n.chars = signChars negative ++ cs ∧ BeginsWithDigit cs := by
  cases n with
  | int k => exact ⟨_, _, chars_int k, beginsWithDigit_toDigits k.natAbs⟩
  | float x => exact ⟨_, _, layout.write_eq x, layout.beginsWithDigit_magnitudeChars x⟩

theorem isDigit_or_minus_of_mem_int (k : Int) :
    ∀ c ∈ chars (.int k), c.isDigit = true ∨ c = '-' := by
  rw [chars_int]
  refine List.forall_mem_append.2 ⟨fun c hc => .inr ?_, fun c hc => .inl ?_⟩
  · unfold signChars at hc
    split at hc
    · exact List.mem_singleton.1 hc
    · cases hc
  · exact (Numeral.IsDecimal.toDigits k.natAbs).isDigit c hc

theorem isNumeralChar_of_mem (n : Number) : ∀ c ∈ n.chars, isNumeralChar c = true := by
  cases n with
  | int k =>
    intro c hc
    rcases isDigit_or_minus_of_mem_int k c hc with h | rfl
    · simp [isNumeralChar, h]
    · rfl
  | float x => exact layout.isNumeralChar_of_mem_write x

/-- No integer is written as a double, and no double as an integer. -/
theorem chars_int_ne_float (k : Int) (x : Binary64) : chars (.int k) ≠ chars (.float x) := by
  intro h
  obtain ⟨c, hc, hmark⟩ := layout.exists_mark_mem_write x
  have hint := isDigit_or_minus_of_mem_int k c (h ▸ hc)
  rcases hmark with rfl | rfl
  · simp at hint
  · simp at hint

theorem chars_int_inj {j k : Int} (h : chars (.int j) = chars (.int k)) : j = k := by
  rw [chars_int, chars_int] at h
  obtain ⟨hneg, hdigits⟩ :=
    signChars_append_inj (beginsWithDigit_toDigits _) (beginsWithDigit_toDigits _) h
  have habs := Numeral.toDigits_inj hdigits
  have hneg : j < 0 ↔ k < 0 := decide_eq_decide.1 hneg
  omega

/-- Different numbers have different texts. -/
theorem chars_inj (h : m.chars = n.chars) : m = n := by
  cases m with
  | int j =>
    cases n with
    | int k => rw [chars_int_inj h]
    | float y => exact absurd h (chars_int_ne_float j y)
  | float x =>
    cases n with
    | int k => exact absurd h.symm (chars_int_ne_float k x)
    | float y => rw [Layout.write_inj h]

end Number

/-! ## Separated entries -/

/-- A text that a number before it does not go on into. -/
def Stops (r : List Char) : Prop :=
  ∀ c ∈ r.head?, isNumeralChar c = false

section Separated

variable {α : Type} {text : α → List Char} {close : Char} {x : α} {xs ys : List α}
variable {r r' : List Char}

/-- An entry and what follows it are told from one text. -/
def Readable (text : α → List Char) (x : α) : Prop :=
  ∀ (y : α) (r r' : List Char), Stops r → Stops r' → text x ++ r = text y ++ r' → x = y ∧ r = r'

/-- Entries that follow another one, with a comma before each, and the bracket that closes them. -/
def moreSeparated (text : α → List Char) (close : Char) : List α → List Char
  | [] => [close]
  | x :: xs => ',' :: (text x ++ moreSeparated text close xs)

/-- Entries with commas between them and the bracket that closes them. -/
def separated (text : α → List Char) (close : Char) : List α → List Char
  | [] => [close]
  | x :: xs => text x ++ moreSeparated text close xs

theorem stops_moreSeparated (hclose : isNumeralChar close = false) (xs : List α)
    (r : List Char) : Stops (moreSeparated text close xs ++ r) := by
  cases xs with
  | nil =>
    rintro c ⟨⟩
    exact hclose
  | cons x xs =>
    rintro c ⟨⟩
    rfl

/-- The entries that follow another one are told from their text. -/
theorem moreSeparated_append_inj (hcomma : close ≠ ',') (hclose : isNumeralChar close = false)
    (hxs : ∀ x ∈ xs, Readable text x)
    (h : moreSeparated text close xs ++ r = moreSeparated text close ys ++ r') :
    xs = ys ∧ r = r' := by
  induction xs generalizing ys with
  | nil =>
    cases ys with
    | nil => exact ⟨rfl, (List.cons.inj h).2⟩
    | cons y ys => exact absurd (List.cons.inj h).1 hcomma
  | cons x xs ih =>
    obtain ⟨hx, hxs⟩ := List.forall_mem_cons.1 hxs
    cases ys with
    | nil => exact absurd (List.cons.inj h).1.symm hcomma
    | cons y ys =>
      rw [moreSeparated, moreSeparated, List.cons_append, List.cons_append, List.append_assoc,
        List.append_assoc] at h
      obtain ⟨rfl, hrest⟩ := hx y _ _ (stops_moreSeparated hclose xs r)
        (stops_moreSeparated hclose ys r') (List.cons.inj h).2
      obtain ⟨rfl, hr⟩ := ih hxs hrest
      exact ⟨rfl, hr⟩

/-- Entries of which none begins with the bracket are told from their text. -/
theorem separated_append_inj (hcomma : close ≠ ',') (hclose : isNumeralChar close = false)
    (hfirst : ∀ x r r', text x ++ r ≠ close :: r') (hxs : ∀ x ∈ xs, Readable text x)
    (h : separated text close xs ++ r = separated text close ys ++ r') : xs = ys ∧ r = r' := by
  cases xs with
  | nil =>
    cases ys with
    | nil => exact ⟨rfl, (List.cons.inj h).2⟩
    | cons y ys =>
      rw [separated, separated, List.append_assoc] at h
      exact absurd h.symm (hfirst y _ _)
  | cons x xs =>
    obtain ⟨hx, hxs⟩ := List.forall_mem_cons.1 hxs
    cases ys with
    | nil =>
      rw [separated, separated, List.append_assoc] at h
      exact absurd h (hfirst x _ _)
    | cons y ys =>
      rw [separated, separated, List.append_assoc, List.append_assoc] at h
      obtain ⟨rfl, hrest⟩ := hx y _ _ (stops_moreSeparated hclose xs r)
        (stops_moreSeparated hclose ys r') h
      obtain ⟨rfl, hr⟩ := moreSeparated_append_inj hcomma hclose hxs hrest
      exact ⟨rfl, hr⟩

theorem forall_mem_separated {p : Char → Prop} (hcomma : p ',') (hclose : p close)
    (hxs : ∀ x ∈ xs, ∀ c ∈ text x, p c) : ∀ c ∈ separated text close xs, p c := by
  have hmore : ∀ ys : List α, (∀ y ∈ ys, ∀ c ∈ text y, p c) →
      ∀ c ∈ moreSeparated text close ys, p c := by
    intro ys hys
    induction ys with
    | nil => exact List.forall_mem_singleton.2 hclose
    | cons y ys ih =>
      obtain ⟨hy, hys⟩ := List.forall_mem_cons.1 hys
      exact List.forall_mem_cons.2 ⟨hcomma, List.forall_mem_append.2 ⟨hy, ih hys⟩⟩
  cases xs with
  | nil => exact List.forall_mem_singleton.2 hclose
  | cons x xs =>
    obtain ⟨hx, hxs⟩ := List.forall_mem_cons.1 hxs
    exact List.forall_mem_append.2 ⟨hx, hmore xs hxs⟩

end Separated

namespace Document

variable {d e : Document} {r r' : List Char}

/-! ## The text of each shape -/

/-- The characters of a document in canonical text, its members in their order. -/
def asciiChars (d : Document) : List Char :=
  d.chars.flatMap Text.ascii

/-- The characters of a member in canonical text. -/
def asciiMember (m : String × Document) : List Char :=
  Text.asciiQuote m.1 ++ ':' :: asciiChars m.2

theorem asciiChars_num (n : Number) : asciiChars (.num n) = n.chars :=
  Text.flatMap_ascii_eq_self fun c hc => (Layout.printable_of_isNumeralChar
    (n.isNumeralChar_of_mem c hc)).2

theorem ascii_comma : Text.ascii ',' = [','] := if_pos (by decide)

theorem ascii_colon : Text.ascii ':' = [':'] := if_pos (by decide)

theorem asciiChars_arr (items : List Document) :
    asciiChars (.arr items) = '[' :: separated asciiChars ']' items := by
  have hmore : ∀ ds, (charsMoreItems ds).flatMap Text.ascii = moreSeparated asciiChars ']' ds := by
    intro ds
    induction ds with
    | nil => rfl
    | cons d ds ih => simp [charsMoreItems, moreSeparated, ascii_comma, ih, asciiChars]
  cases items with
  | nil => rfl
  | cons d ds =>
    rw [separated, ← hmore, asciiChars, asciiChars, ← List.flatMap_append]
    rfl

theorem asciiChars_obj (members : Members) :
    asciiChars (.obj members) = '\x7b' :: separated asciiMember '\x7d' members := by
  have hmore : ∀ ms, (charsMoreMembers ms).flatMap Text.ascii =
      moreSeparated asciiMember '\x7d' ms := by
    intro ms
    induction ms with
    | nil => rfl
    | cons m ms ih =>
      obtain ⟨k, v⟩ := m
      simp [charsMoreMembers, moreSeparated, ascii_comma, ascii_colon, ih, asciiMember, asciiChars,
        Text.asciiQuote]
  cases members with
  | nil => rfl
  | cons m ms =>
    obtain ⟨k, v⟩ := m
    have hbrace : Text.ascii '\x7b' = ['\x7b'] := if_pos (by decide)
    rw [separated, ← hmore]
    simp [asciiChars, chars, charsMembers, asciiMember, Text.asciiQuote, ascii_colon, hbrace]

/-- The first character of the text of a document, one digit standing for all numbers. -/
def mark : Document → Char
  | .null => 'n'
  | .bool true => 't'
  | .bool false => 'f'
  | .num _ => '0'
  | .str _ => '"'
  | .arr _ => '['
  | .obj _ => '\x7b'

/-- The mark of the documents whose text begins with a character. -/
def markOf (c : Char) : Char :=
  if c.isDigit || c == '-' then '0' else c

theorem exists_cons_asciiChars (d : Document) :
    ∃ c cs, asciiChars d = c :: cs ∧ markOf c = d.mark := by
  cases d with
  | null => exact ⟨'n', _, rfl, rfl⟩
  | bool b => cases b <;> exact ⟨_, _, rfl, rfl⟩
  | num n =>
    obtain ⟨negative, _, hn, c, cs, rfl, hc⟩ := n.exists_signChars_append
    rw [asciiChars_num, hn]
    cases negative with
    | true => exact ⟨'-', c :: cs, rfl, rfl⟩
    | false => exact ⟨c, cs, rfl, by rw [markOf, hc]; rfl⟩
  | str s => exact ⟨'"', _, rfl, rfl⟩
  | arr items => exact ⟨'[', _, rfl, rfl⟩
  | obj members => exact ⟨'\x7b', _, rfl, rfl⟩

/-- Two documents of one kind, and the same one if they are null or truth values. -/
inductive SameShape : Document → Document → Prop where
  | null : SameShape .null .null
  | bool (b : Bool) : SameShape (.bool b) (.bool b)
  | num (m n : Number) : SameShape (.num m) (.num n)
  | str (s t : String) : SameShape (.str s) (.str t)
  | arr (as bs : List Document) : SameShape (.arr as) (.arr bs)
  | obj (as bs : Members) : SameShape (.obj as) (.obj bs)

theorem sameShape_of_mark (h : d.mark = e.mark) : SameShape d e := by
  rcases d with _ | (_ | _) | _ | _ | _ | _ <;> rcases e with _ | (_ | _) | _ | _ | _ | _ <;>
    first | constructor | cases h

/-- The first character of a text tells the shape of the document. -/
theorem sameShape_of_append (h : asciiChars d ++ r = asciiChars e ++ r') : SameShape d e := by
  obtain ⟨c, cs, hd, hc⟩ := exists_cons_asciiChars d
  obtain ⟨c', cs', he, hc'⟩ := exists_cons_asciiChars e
  rw [hd, he] at h
  refine sameShape_of_mark ?_
  rw [← hc, ← hc', (List.cons.inj h).1]

/-- No document begins as an array is closed. -/
theorem asciiChars_append_ne (d : Document) (r r' : List Char) :
    asciiChars d ++ r ≠ ']' :: r' := by
  intro h
  obtain ⟨c, cs, hd, hc⟩ := exists_cons_asciiChars d
  rw [hd] at h
  rw [(List.cons.inj h).1] at hc
  cases d with
  | bool b => cases b <;> cases hc
  | null | num | str | arr | obj => cases hc

/-- No member begins as an object is closed. -/
theorem asciiMember_append_ne (m : String × Document) (r r' : List Char) :
    asciiMember m ++ r ≠ '\x7d' :: r' := by
  rw [asciiMember, Text.asciiQuote_eq]
  exact fun h => absurd (List.cons.inj h).1 (by decide)

/-! ## One reading -/

/-- Numbers and what follows them are told from one text. -/
theorem num_append_inj {m n : Number} (hr : Stops r) (hr' : Stops r')
    (h : m.chars ++ r = n.chars ++ r') : m = n ∧ r = r' := by
  obtain ⟨hm, hrest⟩ := span_eq_iff.2 ⟨rfl, m.isNumeralChar_of_mem, hr⟩
  obtain ⟨hn, hrest'⟩ := span_eq_iff.2 ⟨rfl, n.isNumeralChar_of_mem, hr'⟩
  rw [h] at hm hrest
  exact ⟨Number.chars_inj (hm.symm.trans hn), hrest.symm.trans hrest'⟩

theorem readable_member {m : String × Document} (h : Readable asciiChars m.2) :
    Readable asciiMember m := by
  intro n r r' hr hr' hmn
  rw [asciiMember, asciiMember, List.append_assoc, List.append_assoc] at hmn
  obtain ⟨hkey, hvalue⟩ := Text.asciiQuote_append_inj hmn
  obtain ⟨hvalue, hrest⟩ := h n.2 r r' hr hr' (List.cons.inj hvalue).2
  exact ⟨Prod.ext hkey hvalue, hrest⟩

/-- A document and what follows it are told from one text. -/
theorem readable (d : Document) : Readable asciiChars d := by
  induction d using Document.induction with
  | null =>
    intro e r r' _ _ h
    cases sameShape_of_append h
    exact ⟨rfl, List.append_cancel_left h⟩
  | bool b =>
    intro e r r' _ _ h
    cases sameShape_of_append h
    exact ⟨rfl, List.append_cancel_left h⟩
  | num m =>
    intro e r r' hr hr' h
    cases sameShape_of_append h
    rw [asciiChars_num, asciiChars_num] at h
    obtain ⟨rfl, hrest⟩ := num_append_inj hr hr' h
    exact ⟨rfl, hrest⟩
  | str s =>
    intro e r r' _ _ h
    cases sameShape_of_append h
    obtain ⟨rfl, hrest⟩ := Text.asciiQuote_append_inj h
    exact ⟨rfl, hrest⟩
  | arr items ih =>
    intro e r r' _ _ h
    cases sameShape_of_append h
    rw [asciiChars_arr, asciiChars_arr] at h
    obtain ⟨rfl, hrest⟩ := separated_append_inj (by decide) (by decide) asciiChars_append_ne ih
      (List.cons.inj h).2
    exact ⟨rfl, hrest⟩
  | obj members ih =>
    intro e r r' _ _ h
    cases sameShape_of_append h
    rw [asciiChars_obj, asciiChars_obj] at h
    obtain ⟨rfl, hrest⟩ := separated_append_inj (by decide) (by decide) asciiMember_append_ne
      (fun m hm => readable_member (ih m hm)) (List.cons.inj h).2
    exact ⟨rfl, hrest⟩

/-- Different documents have different texts. -/
theorem asciiChars_inj (h : asciiChars d = asciiChars e) : d = e := by
  have hstops : Stops [] := nofun
  refine (readable d e [] [] hstops hstops ?_).1
  rw [h]

/-! ## Sorted members -/

theorem sortKeys_obj (members : Members) : sortKeys (.obj members) =
    .obj (Members.sort (members.map fun m => (m.1, sortKeys m.2))) := by
  rw [sortKeys, sortKeysMembers_eq_map]

theorem sortKeys_arr (items : List Document) :
    sortKeys (.arr items) = .arr (items.map sortKeys) := by
  rw [sortKeys, sortKeysItems_eq_map]

theorem nodup_keys_sort {members : Members} (h : (Members.keys members).Nodup) :
    (Members.keys (Members.sort (members.map fun m => (m.1, sortKeys m.2)))).Nodup := by
  rw [Members.keys, ((Members.sort_perm _).map Prod.fst).nodup_iff, List.map_map]
  exact h

theorem Distinct.sortKeys {d : Document} : Distinct d → Distinct d.sortKeys := by
  induction d using Document.induction with
  | null | bool | num | str => exact id
  | arr items ih =>
    intro hd
    rw [sortKeys_arr, distinct_arr, List.forall_mem_map]
    exact fun d hm => ih d hm (distinct_arr.1 hd d hm)
  | obj members ih =>
    intro hd
    obtain ⟨hn, hd⟩ := distinct_obj.1 hd
    rw [sortKeys_obj, distinct_obj]
    refine ⟨nodup_keys_sort hn, fun m hm => ?_⟩
    obtain ⟨n, hn, rfl⟩ := List.mem_map.1 ((Members.sort_perm _).mem_iff.1 hm)
    exact ih n hn (hd n hn)

/-- Sorting its members keeps a document equal to what it was. -/
theorem equal_sortKeys {d : Document} : Distinct d → equal d d.sortKeys = true := by
  induction d using Document.induction with
  | null | bool | num | str => exact equal_refl
  | arr items ih =>
    intro hd
    rw [sortKeys_arr, equal_arr, List.forall₂_map_right_iff, List.forall₂_same]
    exact fun d hm => ih d hm (distinct_arr.1 hd d hm)
  | obj members ih =>
    intro hd
    obtain ⟨hn, hd⟩ := distinct_obj.1 hd
    rw [sortKeys_obj, equal_obj]
    refine ⟨?_, fun m hm => ⟨sortKeys m.2, ?_, ih m hm (hd m hm)⟩⟩
    · rw [(Members.sort_perm _).length_eq, List.length_map]
    · exact Members.get?_of_mem (nodup_keys_sort hn)
        ((Members.sort_perm _).mem_iff.2 (List.mem_map_of_mem hm))

/-- Documents with one canonical text are equal. -/
theorem equal_of_canonical_eq (hd : Distinct d) (he : Distinct e)
    (h : canonical d = canonical e) : equal d e = true := by
  have hsorted : d.sortKeys = e.sortKeys := asciiChars_inj (String.ofList_injective h)
  refine equal_trans (equal_sortKeys hd) ?_
  rw [hsorted]
  exact equal_symm he he.sortKeys (equal_sortKeys he)

/-! ## Printable text -/

theorem printable_asciiChars (d : Document) :
    ∀ c ∈ asciiChars d, 0x20 ≤ c.toNat ∧ c.toNat < 0x7F := by
  induction d using Document.induction with
  | null => exact Text.printable_of_all (by decide)
  | bool b => cases b <;> exact Text.printable_of_all (by decide)
  | num n =>
    rw [asciiChars_num]
    exact fun c hc => Layout.printable_of_isNumeralChar (n.isNumeralChar_of_mem c hc)
  | str s => exact Text.printable_asciiQuote s
  | arr items ih =>
    rw [asciiChars_arr]
    exact List.forall_mem_cons.2 ⟨by decide, forall_mem_separated (by decide) (by decide) ih⟩
  | obj members ih =>
    rw [asciiChars_obj]
    refine List.forall_mem_cons.2 ⟨by decide, forall_mem_separated (by decide) (by decide)
      fun m hm => List.forall_mem_append.2 ⟨Text.printable_asciiQuote m.1, ?_⟩⟩
    exact List.forall_mem_cons.2 ⟨by decide, ih m hm⟩

/-! ## Canonical text -/

/-- Documents with one canonical text are equal; equal documents without a negative zero have one
canonical text and one key under every sort key; and the text is printable ASCII. -/
theorem canonical_faithful {a b : Document} (ha : Distinct a) (hb : Distinct b) :
    (a.canonical = b.canonical → equal a b = true) ∧
      (equal a b = true → NoNegativeZero a → NoNegativeZero b →
        a.canonical = b.canonical ∧ ∀ k : SortKey, k.key a = k.key b) ∧
      ∀ c ∈ a.canonical.toList, 0x20 ≤ c.toNat ∧ c.toNat ≤ 0x7E := by
  refine ⟨equal_of_canonical_eq ha hb, fun h hza hzb => ?_, fun c hc => ?_⟩
  · have hka : Keyable a := ⟨ha, hza⟩
    have hkb : Keyable b := ⟨hb, hzb⟩
    exact ⟨canonical_eq_of_equal hka hkb h, fun k => k.key_eq_of_equal hka hkb h⟩
  · rw [canonical, String.toList_ofList] at hc
    obtain ⟨hle, hlt⟩ := printable_asciiChars _ c hc
    exact ⟨hle, Nat.le_of_lt_succ hlt⟩

/-- A string with an escape written out and one with the character it stands for, and an integer
beside a double: the order of the members changes nothing, and any other change does. -/
theorem canonical_faithful_reordered :
    let spelled : Document := .obj [("\\u00e9", .str "é"), ("x", .num (.int 1))]
    let swapped : Document := .obj [("x", .num (.int 1)), ("\\u00e9", .str "é")]
    let double : Document :=
      .obj [("x", .num (.float ⟨false, 1023, 0⟩)), ("\\u00e9", .str "é")]
    (spelled.Distinct ∧ swapped.Distinct ∧ double.Distinct) ∧
      spelled.canonical = swapped.canonical ∧ (SortKey.str.key spelled = SortKey.str.key swapped) ∧
      spelled.canonical ≠ double.canonical ∧
      ∀ c ∈ spelled.canonical.toList, 0x20 ≤ c.toNat ∧ c.toNat ≤ 0x7E := by
  intro spelled swapped double
  have hspelled : spelled.Distinct := by decide
  have hswapped : swapped.Distinct := by decide
  have hdouble : double.Distinct := by decide
  have hequal : spelled.equal swapped = true := by decide
  have hother : spelled.equal double = false := by decide
  obtain ⟨-, hsame, hprintable⟩ := canonical_faithful hspelled hswapped
  obtain ⟨htext, hkey⟩ := hsame hequal (by decide) (by decide)
  refine ⟨⟨hspelled, hswapped, hdouble⟩, htext, hkey .str, fun h => ?_, hprintable⟩
  rw [(canonical_faithful hspelled hdouble).1 h] at hother
  cases hother

end Document

end SchemaLoom
