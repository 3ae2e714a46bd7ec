import SchemaLoom.Proofs.Identity
import SchemaLoom.Proofs.Numeral

/-!
# The spellings of an identity

The version of an identity may be written with leading zeros, and nothing else about its text is
free.  So the texts that an identity is read from differ from the one that is written for it by
these zeros, and a number sign with a text on one line can follow each of them.

- `Identity.stem`: the text of an identity up to its version.
- `Identity.kind_of_parse?`: a fragment after any spelling of an identity.
- `Identity.read_exactly`: which texts are spellings, and what is written and read back.
-/

namespace SchemaLoom

namespace Identity

open ReferenceKind

variable {id : Identity} {u : String}

/-- The text of an identity up to the digits of its version. -/
def stem (id : Identity) : String :=
  id.scheme ++ "://" ++ id.moduleName ++ "/" ++ id.resource ++ "/v"

theorem toList_stem_append (id : Identity) (digits : String) :
    (id.stem ++ digits).toList = id.chars digits.toList := by
  simp [stem, chars]

/-- The texts that an identity is read from, with the digits of its version as a text. -/
theorem parse?_eq_some_iff_stem : parse? u = some id ↔ id.WellNamed ∧
    id.version < Numeral.wordLimit ∧
      ∃ digits : String, Numeral.IsDecimal digits.toList id.version ∧ u = id.stem ++ digits := by
  rw [parse?_eq_some_iff]
  refine and_congr_right fun _ => and_congr_right fun _ => ?_
  constructor
  · rintro ⟨ds, hds, hu⟩
    refine ⟨.ofList ds, by rwa [String.toList_ofList], String.toList_inj.1 ?_⟩
    rw [hu, toList_stem_append, String.toList_ofList]
  · rintro ⟨digits, hdigits, rfl⟩
    exact ⟨_, hdigits, toList_stem_append id digits⟩

/-- What is written for an identity is any spelling of it without the leading zeros. -/
theorem text_of_isDecimal {digits : String} (h : Numeral.IsDecimal digits.toList id.version) :
    id.text = id.stem ++ String.ofList (Numeral.withoutLeadingZeros digits.toList) := by
  refine String.toList_inj.1 ?_
  rw [toList_stem_append, String.toList_ofList, ← h.toDigits_eq, toList_text]

/-- A number sign and a text on one line after any spelling of an identity are its fragment. -/
theorem kind_of_parse? (h : parse? u = some id) {text : String} (htext : '\n' ∉ text.toList) :
    Reference.kind ⟨u ++ "#" ++ text⟩ = .qualified id (some text) := by
  obtain ⟨hid, hv, ds, hds, hu⟩ := parse?_eq_some_iff.1 h
  have hline : '\n' ∉ fragmentChars (some text) := by
    rw [fragmentChars, List.mem_cons, not_or]
    exact ⟨by decide, htext⟩
  have hchars : (u ++ "#" ++ text).toList = id.chars (ds ++ fragmentChars (some text)) := by
    rw [← chars_append, ← hu]
    simp [fragmentChars]
  rw [Reference.kind, hchars, ofChars_eq_qualified_iff, qualified?_eq_some_iff]
  exact ⟨hid, hv, hline, ds, hds, rfl⟩

/-- An identity is read from exactly the texts that are made of its names, if these hold the
characters of their kind, and of digits of its version, if that fits into 64 bits.  What is written
for it is such a text without the leading zeros of the version, and it is read from that.  After
such a text, a number sign and any text on one line are a fragment. -/
theorem read_exactly (u : String) (id : Identity) :
    (parse? u = some id ↔ id.WellNamed ∧ id.version < Numeral.wordLimit ∧
      ∃ digits : String, Numeral.IsDecimal digits.toList id.version ∧
        u = id.scheme ++ "://" ++ id.moduleName ++ "/" ++ id.resource ++ "/v" ++ digits) ∧
    (∀ digits : String, parse? (id.stem ++ digits) = some id →
      id.text = id.stem ++ String.ofList (Numeral.withoutLeadingZeros digits.toList)) ∧
    (id.WellNamed → id.version < Numeral.wordLimit → parse? id.text = some id) ∧
    ∀ text : String, parse? u = some id → '\n' ∉ text.toList →
      Reference.kind ⟨u ++ "#" ++ text⟩ = .qualified id (some text) := by
  refine ⟨parse?_eq_some_iff_stem, fun digits h => ?_, fun hid hv => ?_, fun text h htext => ?_⟩
  · obtain ⟨-, -, ds, hds, hu⟩ := parse?_eq_some_iff.1 h
    have hdigits : digits.toList = ds := by
      rw [toList_stem_append] at hu
      simpa [chars] using hu
    exact text_of_isDecimal (hdigits ▸ hds)
  · exact (parse?_text_iff hv).2 hid
  · exact kind_of_parse? h htext

/-- A resource whose name begins and ends like a version, a version with leading zeros, and a
fragment with a number sign in it. -/
theorem read_exactly_zeros :
    let id : Identity := ⟨"forge", "sdk", "v1-v", 7⟩
    id.WellNamed ∧ id.version < Numeral.wordLimit ∧
      parse? "forge://sdk/v1-v/v007" = some id ∧ id.text = "forge://sdk/v1-v/v7" ∧
      parse? id.text = some id ∧ '\n' ∉ "/a#b".toList ∧
      Reference.kind ⟨"forge://sdk/v1-v/v007#/a#b"⟩ = .qualified id (some "/a#b") := by
  intro id
  obtain ⟨hiff, htext, hback, hfragment⟩ := read_exactly "forge://sdk/v1-v/v007" id
  have hid : id.WellNamed := by decide
  have hv : id.version < Numeral.wordLimit := by decide
  have hdigits : Numeral.IsDecimal "007".toList id.version :=
    ⟨by decide, List.all_eq_true.1 (by decide), by decide⟩
  have hparse : parse? "forge://sdk/v1-v/v007" = some id :=
    hiff.2 ⟨hid, hv, "007", hdigits, by decide⟩
  have hline : '\n' ∉ "/a#b".toList := by decide
  exact ⟨hid, hv, hparse, htext "007" hparse, hback hid hv, hline, hfragment "/a#b" hparse hline⟩

end Identity

end SchemaLoom
