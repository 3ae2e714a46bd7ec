import SchemaLoom.Proofs.Document.CanonicalText
import SchemaLoom.Proofs.Separator

/-!
# What identity keys tell apart

The key of an object under an identity is made of the texts of some of its fields, with U+0000
between them.  Canonical text never holds that character, so only a string of the object itself can
bring it in; without such a string the texts are read off the key again.

- `SortKey.Reads`: the text that stands for a field of an object.
- `SortKey.Separable`: no string in one of the fields holds the separator.
- `Document.separator_not_mem_canonical`: canonical text does not hold it.
- `SortKey.key_obj_eq_iff`: objects have one key exactly if they have the same texts.
- `SortKey.identity_separates`: the same in terms of the fields, and no key of such an object is one
  of a value that is no object.
-/

namespace SchemaLoom

/-- The separator is not printable, so canonical text does not hold it. -/
theorem Document.separator_not_mem_canonical (d : Document) : '\x00' ∉ d.canonical.toList := by
  intro h
  rw [canonical, String.toList_ofList] at h
  have hspace : 0x20 ≤ '\x00'.toNat := (printable_asciiChars d.sortKeys _ h).1
  exact absurd hspace (by decide)

namespace SortKey

variable {fields : List String} {members as bs : Members} {field text : String} {d : Document}

/-! ## Fields -/

/-- The text that stands for a field of an object in a key: none for a field that is missing, a
string itself, and the canonical text of anything else. -/
inductive Reads (members : Members) (field : String) : String → Prop where
  | missing (h : Members.get? field members = none) : Reads members field ""
  | string {s : String} (h : Members.get? field members = some (.str s)) : Reads members field s
  | other {d : Document} (h : Members.get? field members = some d) (hd : d.asString? = none) :
    Reads members field d.canonical

theorem plainText_of_asString? (h : d.asString? = none) : plainText d = d.canonical := by
  cases d with
  | str => cases h
  | null | bool | num | arr | obj => rfl

theorem Reads.fieldText_eq (h : Reads members field text) : fieldText members field = text := by
  cases h with
  | missing hfound => rw [fieldText, hfound]
  | string hfound =>
    rw [fieldText, hfound]
    rfl
  | other hfound hd =>
    rw [fieldText, hfound]
    exact plainText_of_asString? hd

theorem reads_fieldText (members : Members) (field : String) :
    Reads members field (fieldText members field) := by
  rw [fieldText]
  cases hfound : Members.get? field members with
  | none => exact .missing hfound
  | some d =>
    cases d with
    | str s => exact .string hfound
    | null | bool | num | arr | obj => exact .other hfound rfl

/-- Every field has one text. -/
theorem reads_iff : Reads members field text ↔ fieldText members field = text :=
  ⟨Reads.fieldText_eq, fun h => h ▸ reads_fieldText members field⟩

/-- No string in one of the fields holds the character that stands between them in a key. -/
def Separable (fields : List String) (members : Members) : Prop :=
  ∀ field ∈ fields, ∀ d ∈ Members.get? field members, ∀ s ∈ d.asString?, '\x00' ∉ s.toList

instance : Decidable (Separable fields members) :=
  inferInstanceAs (Decidable (∀ field ∈ fields, ∀ d ∈ Members.get? field members,
    ∀ s ∈ d.asString?, '\x00' ∉ s.toList))

theorem Separable.not_mem_of_reads (h : Separable fields members) (hfield : field ∈ fields)
    (hreads : Reads members field text) : '\x00' ∉ text.toList := by
  cases hreads with
  | missing => exact List.not_mem_nil
  | string hfound => exact h field hfield _ hfound _ rfl
  | other => exact Document.separator_not_mem_canonical _

theorem Separable.not_mem_of_mem_map (h : Separable fields members) :
    ∀ text ∈ fields.map (fieldText members), '\x00' ∉ text.toList :=
  List.forall_mem_map.2 fun _ hfield => h.not_mem_of_reads hfield (reads_fieldText ..)

/-! ## Keys -/

theorem toList_key_obj (fields : List String) (members : Members) :
    ((identity fields).key (.obj members)).toList =
      ['\x00'].intercalate ((fields.map (fieldText members)).map String.toList) := by
  rw [key, String.toList_intercalate]
  rfl

theorem key_of_isObject_eq_false (fields : List String) (h : d.isObject = false) :
    (identity fields).key d = d.canonical := by
  cases d with
  | obj => cases h
  | null | bool | num | str | arr => rfl

/-- Objects have one key exactly if they have the same texts for its fields. -/
theorem key_obj_eq_iff (hfields : fields ≠ []) (ha : Separable fields as)
    (hb : Separable fields bs) :
    (identity fields).key (.obj as) = (identity fields).key (.obj bs) ↔
      ∀ field ∈ fields, fieldText as field = fieldText bs field := by
  constructor
  · intro h
    have htexts : fields.map (fieldText as) = fields.map (fieldText bs) := by
      refine eq_of_intercalate_toList (by simpa using hfields) (by simpa using hfields)
        (List.forall_mem_append.2 ⟨ha.not_mem_of_mem_map, hb.not_mem_of_mem_map⟩) ?_
      rw [← toList_key_obj, ← toList_key_obj, h]
    exact List.map_inj_left.1 htexts
  · intro h
    rw [key, key, List.map_congr_left h]

/-- The key of an object under an identity of two fields or more is not the key of a value that is
no object. -/
theorem key_obj_ne (hfields : 2 ≤ fields.length) (hd : d.isObject = false) :
    (identity fields).key (.obj members) ≠ (identity fields).key d := by
  intro h
  have hmem : '\x00' ∈ ((identity fields).key (.obj members)).toList := by
    rw [toList_key_obj]
    exact mem_intercalate_toList (by rwa [List.length_map])
  rw [h, key_of_isObject_eq_false fields hd] at hmem
  exact d.separator_not_mem_canonical hmem

/-- Objects whose strings do not hold the separator have one key exactly if every field of the
identity has one text in both, and a value that is no object does not have their key. -/
theorem identity_separates (hfields : 2 ≤ fields.length) (ha : Separable fields as)
    (hb : Separable fields bs) :
    ((identity fields).key (.obj as) = (identity fields).key (.obj bs) ↔
      ∀ field ∈ fields, ∃ text, Reads as field text ∧ Reads bs field text) ∧
    ∀ d : Document, d.isObject = false →
      (identity fields).key (.obj as) ≠ (identity fields).key d := by
  refine ⟨?_, fun d hd => key_obj_ne hfields hd⟩
  rw [key_obj_eq_iff (List.ne_nil_of_length_pos (Nat.zero_lt_of_lt hfields)) ha hb]
  refine forall₂_congr fun field _ => ?_
  simp [reads_iff, eq_comm]

/-- A field that is missing and one that is empty, a text that moves from one field to the other,
and a string that spells the key of an object. -/
theorem identity_separates_parameters :
    let fields : List String := ["in", "name"]
    let unnamed : Members := [("in", .str "query"), ("schema", .obj [])]
    let empty : Members := [("name", .str ""), ("in", .str "query")]
    let moved : Members := [("name", .str "query")]
    (2 ≤ fields.length ∧ Separable fields unnamed ∧ Separable fields empty ∧
      Separable fields moved) ∧
      (identity fields).key (.obj unnamed) = (identity fields).key (.obj empty) ∧
      (identity fields).key (.obj unnamed) ≠ (identity fields).key (.obj moved) ∧
      (identity fields).key (.obj unnamed) ≠ (identity fields).key (.str "query\x00") := by
  intro fields unnamed empty moved
  have hunnamed : Separable fields unnamed := by decide
  have hempty : Separable fields empty := by decide
  have hmoved : Separable fields moved := by decide
  obtain ⟨hsame, hobject⟩ := identity_separates (by decide) hunnamed hempty
  obtain ⟨hother, -⟩ := identity_separates (by decide) hunnamed hmoved
  refine ⟨⟨by decide, hunnamed, hempty, hmoved⟩, hsame.2 ?_, fun h => ?_, hobject _ rfl⟩
  · refine List.forall_mem_cons.2 ⟨⟨"query", .string rfl, .string rfl⟩, ?_⟩
    exact List.forall_mem_singleton.2 ⟨"", .missing rfl, .string rfl⟩
  · obtain ⟨text, hleft, hright⟩ := hother.1 h "in" List.mem_cons_self
    rw [reads_iff] at hleft hright
    exact absurd (hleft.trans hright.symm) (by decide)

end SortKey

end SchemaLoom
