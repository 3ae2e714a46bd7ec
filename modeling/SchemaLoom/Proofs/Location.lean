import Mathlib.Data.List.Basic
import SchemaLoom.Location

/-!
# Indices in locations

An index is written into a location in decimal, and following the location reads it back, as long as
it fits into 64 bits.

- `Numeral.IsDecimal`: the digits that stand for a number, which is read from them.
- `Location.index?_toString`: the index that is read back.
- `Location.Within`, `Location.Apart`: a location at a place or below it, and two places of which
  neither is within the other.
- `Document.Addressable`: a document of which every item has such an index.
-/

namespace SchemaLoom

theorem Numeral.digit?_of_isDigit {c : Char} (h : c.isDigit = true) :
    digit? 10 c = some (c.toNat - '0'.toNat) := by
  have hle : c.toNat ≤ '9'.toNat := (Char.isDigit_iff_toNat.1 h).2
  have hlt : c.toNat - '0'.toNat < 10 := by
    have h9 : '9'.toNat = 57 := rfl
    have h0 : '0'.toNat = 48 := rfl
    omega
  unfold digit?
  rw [if_pos h]
  exact if_pos hlt

/-- Decimal digits stand for the number that they are the digits of. -/
theorem Numeral.valueFrom?_of_isDigit {cs : List Char} (h : ∀ c ∈ cs, c.isDigit = true) (n : Nat) :
    valueFrom? 10 n cs = some (Nat.ofDigitChars 10 cs n) := by
  induction cs generalizing n with
  | nil => rfl
  | cons c cs ih =>
    obtain ⟨hc, hcs⟩ := List.forall_mem_cons.1 h
    rw [valueFrom?, digit?_of_isDigit hc, Option.bind_some, ih hcs, Nat.ofDigitChars_cons]

/-- Digits that stand for a number. -/
structure Numeral.IsDecimal (ds : List Char) (n : Nat) : Prop where
  ne_nil : ds ≠ []
  isDigit : ∀ c ∈ ds, c.isDigit = true
  value : Nat.ofDigitChars 10 ds 0 = n

theorem Numeral.IsDecimal.toDigits (n : Nat) : IsDecimal (Nat.toDigits 10 n) n where
  ne_nil := Nat.toDigits_ne_nil
  isDigit := fun _ hc => Nat.isDigit_of_mem_toDigits (by decide) (by decide) hc
  value := Nat.ofDigitChars_ten_toDigits

/-- Different numbers have different digits. -/
theorem Numeral.toDigits_inj {i j : Nat} (h : Nat.toDigits 10 i = Nat.toDigits 10 j) : i = j :=
  calc
    i = Nat.ofDigitChars 10 (Nat.toDigits 10 i) 0 := Nat.ofDigitChars_ten_toDigits.symm
    _ = Nat.ofDigitChars 10 (Nat.toDigits 10 j) 0 := by rw [h]
    _ = j := Nat.ofDigitChars_ten_toDigits

/-- Among digits, a number is read from the digits that stand for it. -/
theorem Numeral.value?_eq_some_iff {ds : List Char} {n : Nat} (h : ∀ c ∈ ds, c.isDigit = true) :
    value? 10 ds = some n ↔ IsDecimal ds n := by
  rw [value?]
  cases ds with
  | nil =>
    rw [List.isEmpty_nil, if_pos rfl]
    constructor
    · intro h
      cases h
    · exact fun hd => absurd rfl hd.ne_nil
  | cons c cs =>
    rw [List.isEmpty_cons, if_neg Bool.false_ne_true, valueFrom?_of_isDigit h, Option.some_inj]
    exact ⟨fun hn => ⟨List.cons_ne_nil c cs, h, hn⟩, IsDecimal.value⟩

namespace Location

theorem toList_toString (i : Nat) : (toString i).toList = Nat.toDigits 10 i :=
  Nat.toList_repr

/-- An index is read as it was written, if it fits into 64 bits. -/
theorem index?_toString_eq (i : Nat) :
    index? (toString i) = (some i).filter (· < Numeral.wordLimit) := by
  have hdecimal : Numeral.IsDecimal (Nat.toDigits 10 i) i := .toDigits i
  have hvalue : Numeral.value? 10 (Nat.toDigits 10 i) = some i :=
    (Numeral.value?_eq_some_iff hdecimal.isDigit).2 hdecimal
  unfold index?
  rw [toList_toString]
  split
  next rest hplus =>
    -- the text of a number has no sign
    have hsign : ('+').isDigit = true := hdecimal.isDigit '+' (hplus ▸ List.mem_cons_self)
    cases hsign
  next =>
    dsimp only
    rw [hvalue]

/-- An index that fits into 64 bits is read as it was written. -/
theorem index?_toString {i : Nat} (h : i < Numeral.wordLimit) : index? (toString i) = some i := by
  rw [index?_toString_eq]
  exact Option.filter_some_pos (decide_eq_true h)

/-- A written index is read as nothing else. -/
theorem eq_of_index?_toString {i j : Nat} (h : index? (toString i) = some j) : i = j := by
  rw [index?_toString_eq, Option.filter_eq_some_iff] at h
  exact Option.some.inj h.1

/-- Different indices are written differently. -/
theorem eq_of_toString_eq {i j : Nat} (h : toString i = toString j) : i = j := by
  refine Numeral.toDigits_inj ?_
  rw [← toList_toString, h, toList_toString]

/-! ## Places within places -/

variable {loc loc' place place' : Location} {segment segment' : String}

/-- A location is at a place or below it. -/
def Within (loc place : Location) : Prop :=
  place.segments <+: loc.segments

instance (loc place : Location) : Decidable (loc.Within place) :=
  inferInstanceAs (Decidable (place.segments <+: loc.segments))

theorem Within.refl (loc : Location) : loc.Within loc :=
  List.prefix_rfl

theorem Within.trans (h : loc.Within loc') (h' : loc'.Within place) : loc.Within place :=
  List.IsPrefix.trans h' h

theorem within_push (loc : Location) (segment : String) : (loc.push segment).Within loc :=
  List.prefix_append _ _

theorem Within.of_push (h : loc.Within (place.push segment)) : loc.Within place :=
  h.trans (within_push place segment)

theorem not_within_push (loc : Location) (segment : String) : ¬ loc.Within (loc.push segment) := by
  intro h
  have hlength := List.IsPrefix.length_le h
  rw [push, List.length_append, List.length_singleton] at hlength
  omega

/-- Neither of two places is within the other. -/
def Apart (place place' : Location) : Prop :=
  ¬ place.Within place' ∧ ¬ place'.Within place

theorem Apart.symm (h : place.Apart place') : place'.Apart place :=
  ⟨h.2, h.1⟩

theorem Apart.ne (h : place.Apart place') : place ≠ place' := by
  rintro rfl
  exact h.1 (.refl place)

/-- Nothing is within two places that are apart. -/
theorem Apart.not_within (h : place.Apart place') (hloc : loc.Within place) :
    ¬ loc.Within place' := by
  intro hloc'
  rcases List.prefix_or_prefix_of_prefix hloc hloc' with hle | hle
  · exact h.2 hle
  · exact h.1 hle

/-- Different segments lead to places that are apart, and so is all that is within them. -/
theorem apart_of_push (hne : segment ≠ segment') (h : loc.Within (place.push segment))
    (h' : loc'.Within (place.push segment')) : loc.Apart loc' := by
  obtain ⟨path, hpath⟩ := h
  obtain ⟨path', hpath'⟩ := h'
  rw [push, List.append_assoc, List.singleton_append] at hpath hpath'
  unfold Apart Within
  rw [← hpath, ← hpath', List.prefix_append_right_inj, List.prefix_append_right_inj,
    List.cons_prefix_cons, List.cons_prefix_cons]
  exact ⟨fun hle => hne hle.1.symm, fun hle => hne hle.1⟩

end Location

/-! ## Documents whose items all have indices -/

namespace Document

mutual

/-- Every item of the document has an index that fits into 64 bits. -/
def Addressable : Document → Prop
  | .arr items => items.length ≤ Numeral.wordLimit ∧ AddressableItems items
  | .obj members => AddressableMembers members
  | _ => True

def AddressableItems : List Document → Prop
  | [] => True
  | d :: ds => Addressable d ∧ AddressableItems ds

def AddressableMembers : List (String × Document) → Prop
  | [] => True
  | (_, v) :: ms => Addressable v ∧ AddressableMembers ms

end

theorem addressable_arr {items : List Document} :
    Addressable (.arr items) ↔
      items.length ≤ Numeral.wordLimit ∧ ∀ d ∈ items, Addressable d := by
  have hitems : AddressableItems items ↔ ∀ d ∈ items, Addressable d := by
    induction items with
    | nil => simp [AddressableItems]
    | cons d ds ih => rw [AddressableItems, ih, List.forall_mem_cons]
  rw [Addressable, hitems]

theorem addressable_obj {members : Members} :
    Addressable (.obj members) ↔ ∀ m ∈ members, Addressable m.2 := by
  rw [Addressable]
  induction members with
  | nil => simp [AddressableMembers]
  | cons m ms ih =>
    obtain ⟨k, v⟩ := m
    rw [AddressableMembers, ih, List.forall_mem_cons]

end Document

end SchemaLoom
