import Mathlib.Data.List.Basic
import SchemaLoom.Validation

/-!
# Documents without violations

What the schemas of configurations say, keyword by keyword.  A document has no violation exactly if
it has the shape that the schema describes, wherever it stands.

- `violationsAt_typeSchema_eq_nil_iff`, `requiredViolations_eq_nil_iff`,
  `propertyViolations_eq_nil_iff`, `itemViolations_eq_nil_iff`: the keywords.
- `ResourceShape`, `ConfigShape`: the shapes of resources and of configurations.
- `validateConfig_eq_nil_iff`: a document is free of violations exactly if it is of the latter.
-/

namespace SchemaLoom

variable {d : Document} {loc : Location} {members : Members}

/-! ## Types -/

theorem hasType_array_iff : hasType "array" d = true ↔ ∃ items, d = .arr items := by
  cases d with
  | num n => cases n <;> simp [hasType]
  | null | bool | str | arr | obj => simp [hasType]

theorem hasType_object_iff : hasType "object" d = true ↔ ∃ members, d = .obj members := by
  cases d with
  | num n => cases n <;> simp [hasType]
  | null | bool | str | arr | obj => simp [hasType]

theorem hasType_string_iff : hasType "string" d = true ↔ ∃ s, d = .str s := by
  cases d with
  | num n => cases n <;> simp [hasType]
  | null | bool | str | arr | obj => simp [hasType]

theorem hasType_number_iff : hasType "number" d = true ↔ ∃ n, d = .num n := by
  cases d with
  | num n => cases n <;> simp [hasType]
  | null | bool | str | arr | obj => simp [hasType]

/-! ## What a schema comes to -/

@[simp] theorem violationsAt_obj {keywords : Members} :
    violationsAt (.obj keywords) loc d = keywordViolations keywords loc d := rfl

@[simp] theorem keywordViolations_nil : keywordViolations [] loc d = [] := rfl

theorem keywordViolations_type {v : Document} {rest : Members} :
    keywordViolations (("type", v) :: rest) loc d =
      typeViolations v loc d ++ keywordViolations rest loc d := rfl

theorem keywordViolations_required {v : Document} {rest : Members} :
    keywordViolations (("required", v) :: rest) loc d =
      requiredViolations v loc d ++ keywordViolations rest loc d := rfl

theorem keywordViolations_properties {properties rest : Members} :
    keywordViolations (("properties", .obj properties) :: rest) loc (.obj members) =
      propertyViolations properties loc members ++ keywordViolations rest loc (.obj members) := rfl

theorem keywordViolations_items {schema : Document} {rest : Members} {items : List Document} :
    keywordViolations (("items", schema) :: rest) loc (.arr items) =
      (items.zipIdx.flatMap fun x => violationsAt schema (loc.pushIndex x.2) x.1) ++
        keywordViolations rest loc (.arr items) := rfl

theorem propertyViolations_nil : propertyViolations [] loc members = [] := rfl

theorem propertyViolations_cons {key : String} {schema : Document} {rest : Members} :
    propertyViolations ((key, schema) :: rest) loc members =
      (match Members.get? key members with
        | some v => violationsAt schema (loc.push key) v
        | none => []) ++ propertyViolations rest loc members := rfl

/-! ## Keywords -/

theorem typeViolations_eq_nil_iff (loc : Location) {name : String}
    (hname : typeNames.contains name = true) :
    typeViolations (.str name) loc d = [] ↔ hasType name d = true := by
  simp only [typeViolations, types?, hname, if_true, List.any_cons, List.any_nil, Bool.or_false]
  cases hasType name d with
  | true | false => simp

theorem violationsAt_typeSchema_eq_nil_iff {name : String}
    (hname : typeNames.contains name = true) :
    violationsAt (typeSchema name) loc d = [] ↔ hasType name d = true := by
  rw [← typeViolations_eq_nil_iff loc hname, typeSchema, violationsAt_obj, keywordViolations_type,
    keywordViolations_nil, List.append_nil]

theorem requiredViolations_eq_nil_iff {keys : List String} :
    requiredViolations (.arr (keys.map .str)) loc (.obj members) = [] ↔
      ∀ key ∈ keys, ∃ v, Members.get? key members = some v := by
  simp [requiredViolations, List.filterMap_map, Function.comp_def, Document.asString?,
    Members.contains, Option.ne_none_iff_exists']

theorem propertyViolations_eq_nil_iff {properties : List (String × Document)} :
    propertyViolations properties loc members = [] ↔ ∀ p ∈ properties, ∀ v,
      Members.get? p.1 members = some v → violationsAt p.2 (loc.push p.1) v = [] := by
  induction properties with
  | nil => simp [propertyViolations_nil]
  | cons p properties ih =>
    obtain ⟨key, schema⟩ := p
    rw [propertyViolations_cons, List.append_eq_nil_iff, ih, List.forall_mem_cons]
    cases Members.get? key members <;> simp

theorem itemViolations_eq_nil_iff {schema : Document} {items : List Document} {P : Document → Prop}
    (h : ∀ loc x, violationsAt schema loc x = [] ↔ P x) :
    (items.zipIdx.flatMap fun x => violationsAt schema (loc.pushIndex x.2) x.1) = [] ↔
      ∀ x ∈ items, P x := by
  rw [List.flatMap_eq_nil_iff]
  simp only [h]
  constructor
  · intro hall x hx
    obtain ⟨i, hi⟩ := List.mem_iff_getElem?.1 hx
    exact hall (x, i) (List.mk_mem_zipIdx_iff_getElem?.2 hi)
  · intro hall x hx
    exact hall x.1 (List.fst_mem_of_mem_zipIdx hx)

/-- The schema of a list. -/
theorem violationsAt_list_eq_nil_iff {schema : Document} {P : Document → Prop}
    (h : ∀ loc x, violationsAt schema loc x = [] ↔ P x) :
    violationsAt (.obj [("type", .str "array"), ("items", schema)]) loc d = [] ↔
      ∃ items, d = .arr items ∧ ∀ x ∈ items, P x := by
  have htype : typeViolations (.str "array") loc d = [] ↔ ∃ items, d = .arr items :=
    (typeViolations_eq_nil_iff loc rfl).trans hasType_array_iff
  rw [violationsAt_obj, keywordViolations_type, List.append_eq_nil_iff, htype]
  constructor
  · rintro ⟨⟨items, rfl⟩, hitems⟩
    rw [keywordViolations_items, keywordViolations_nil, List.append_nil] at hitems
    exact ⟨items, rfl, (itemViolations_eq_nil_iff h).1 hitems⟩
  · rintro ⟨items, rfl, hitems⟩
    rw [keywordViolations_items, keywordViolations_nil, List.append_nil]
    exact ⟨⟨items, rfl⟩, (itemViolations_eq_nil_iff h).2 hitems⟩

/-- The schema of an object. -/
theorem violationsAt_object_eq_nil_iff (keys : List String) {properties : Members} :
    violationsAt (.obj [("type", .str "object"), ("required", .arr (keys.map .str)),
        ("properties", .obj properties)]) loc d = [] ↔
      ∃ members, d = .obj members ∧ (∀ key ∈ keys, ∃ v, Members.get? key members = some v) ∧
        ∀ p ∈ properties, ∀ v, Members.get? p.1 members = some v →
          violationsAt p.2 (loc.push p.1) v = [] := by
  have htype : typeViolations (.str "object") loc d = [] ↔ ∃ members, d = .obj members :=
    (typeViolations_eq_nil_iff loc rfl).trans hasType_object_iff
  have hrest : ∀ members, keywordViolations [("required", .arr (keys.map .str)),
      ("properties", .obj properties)] loc (.obj members) = [] ↔
        requiredViolations (.arr (keys.map .str)) loc (.obj members) = [] ∧
          propertyViolations properties loc members = [] := by
    intro members
    rw [keywordViolations_required, keywordViolations_properties, keywordViolations_nil,
      List.append_nil, List.append_eq_nil_iff]
  rw [violationsAt_obj, keywordViolations_type, List.append_eq_nil_iff, htype]
  constructor
  · rintro ⟨⟨members, rfl⟩, h⟩
    obtain ⟨hkeys, hproperties⟩ := (hrest members).1 h
    exact ⟨members, rfl, requiredViolations_eq_nil_iff.1 hkeys,
      propertyViolations_eq_nil_iff.1 hproperties⟩
  · rintro ⟨members, rfl, hkeys, hproperties⟩
    exact ⟨⟨members, rfl⟩, (hrest members).2 ⟨requiredViolations_eq_nil_iff.2 hkeys,
      propertyViolations_eq_nil_iff.2 hproperties⟩⟩

/-! ## Configurations -/

/-- A list of strings. -/
def StringsShape (d : Document) : Prop :=
  ∃ items, d = .arr items ∧ ∀ x ∈ items, ∃ s, x = .str s

/-- An object with a string for a name and a number for a version; what it lists, it lists as
strings. -/
def ResourceShape (d : Document) : Prop :=
  ∃ members, d = .obj members ∧
    (∃ v, Members.get? "name" members = some v ∧ ∃ name, v = .str name) ∧
    (∃ v, Members.get? "version" members = some v ∧ ∃ version, v = .num version) ∧
    ∀ key ∈ ["openapi", "asyncapi", "if"], ∀ v, Members.get? key members = some v → StringsShape v

/-- An object with a list of resources. -/
def ConfigShape (d : Document) : Prop :=
  ∃ members, d = .obj members ∧
    ∃ v, Members.get? "resources" members = some v ∧
      ∃ entries, v = .arr entries ∧ ∀ e ∈ entries, ResourceShape e

theorem violationsAt_string_eq_nil_iff :
    violationsAt (typeSchema "string") loc d = [] ↔ ∃ s, d = .str s :=
  (violationsAt_typeSchema_eq_nil_iff rfl).trans hasType_string_iff

theorem violationsAt_number_eq_nil_iff :
    violationsAt (typeSchema "number") loc d = [] ↔ ∃ n, d = .num n :=
  (violationsAt_typeSchema_eq_nil_iff rfl).trans hasType_number_iff

theorem violationsAt_stringsSchema_eq_nil_iff :
    violationsAt stringsSchema loc d = [] ↔ StringsShape d :=
  violationsAt_list_eq_nil_iff fun _ _ => violationsAt_string_eq_nil_iff

/-- A key that must be there and has a schema. -/
theorem exists_get?_iff {key : String} {P : Document → Prop} :
    (∃ v, Members.get? key members = some v ∧ P v) ↔
      (∃ v, Members.get? key members = some v) ∧ ∀ v, Members.get? key members = some v → P v := by
  constructor
  · rintro ⟨v, hv, hP⟩
    exact ⟨⟨v, hv⟩, fun w hw => Option.some.inj (hv.symm.trans hw) ▸ hP⟩
  · rintro ⟨⟨v, hv⟩, hP⟩
    exact ⟨v, hv, hP v hv⟩

theorem violationsAt_resourceSchema_eq_nil_iff :
    violationsAt resourceSchema loc d = [] ↔ ResourceShape d := by
  refine (violationsAt_object_eq_nil_iff ["name", "version"]).trans
    (exists_congr fun members => and_congr_right fun _ => ?_)
  simp only [List.forall_mem_cons, violationsAt_string_eq_nil_iff, violationsAt_number_eq_nil_iff,
    violationsAt_stringsSchema_eq_nil_iff, exists_get?_iff]
  constructor
  · rintro ⟨⟨name, version, -⟩, hname, hversion, hlists⟩
    exact ⟨⟨name, hname⟩, ⟨version, hversion⟩, hlists.1, hlists.2.1, hlists.2.2.1, nofun⟩
  · rintro ⟨⟨name, hname⟩, ⟨version, hversion⟩, hopenapi, hasyncapi, hconditions, -⟩
    exact ⟨⟨name, version, nofun⟩, hname, hversion, hopenapi, hasyncapi, hconditions, nofun⟩

theorem violationsAt_configSchema_eq_nil_iff :
    violationsAt configSchema loc d = [] ↔ ConfigShape d := by
  have hlist : ∀ loc x,
      violationsAt (.obj [("type", .str "array"), ("items", resourceSchema)]) loc x = [] ↔
        ∃ entries, x = .arr entries ∧ ∀ e ∈ entries, ResourceShape e :=
    fun _ _ => violationsAt_list_eq_nil_iff fun _ _ => violationsAt_resourceSchema_eq_nil_iff
  refine (violationsAt_object_eq_nil_iff ["resources"]).trans
    (exists_congr fun members => and_congr_right fun _ => ?_)
  simp only [List.forall_mem_cons, hlist, exists_get?_iff]
  constructor
  · rintro ⟨⟨resources, -⟩, hresources, -⟩
    exact ⟨resources, hresources⟩
  · rintro ⟨resources, hresources⟩
    exact ⟨⟨resources, nofun⟩, hresources, nofun⟩

/-- The schema of configurations is sound. -/
theorem flaw?_configSchema : flaw? configSchema = none := by
  decide

/-- A document has no violation exactly if it is an object with a list of resources. -/
theorem validateConfig_eq_nil_iff : validateConfig d = [] ↔ ConfigShape d := by
  rw [validateConfig, validate, flaw?_configSchema]
  exact violationsAt_configSchema_eq_nil_iff

end SchemaLoom
