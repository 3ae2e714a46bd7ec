import SchemaLoom.Proofs.Flattening.Fitting
import SchemaLoom.Proofs.Flattening.Names

/-!
# Structs describe their schemas

A struct has the properties of one object schema of the document for its fields, in their order, with
the dimensions that the arrays and the string of each property ask for.  A named object schema
without an error has a struct for itself and for every object schema nested in it, each once.

- `Shape`: the dimensions that a property's schema asks for.
- `Describes`: a struct with the fields that an object schema asks for.
- `Gives.describes`: every struct describes the schema at its location.
- `exists_struct_of_nests`: every nested schema has a struct.
- `flatten_faithful`: both for whole documents, that no two structs are at one place, and that just
  the schemas that fit have no error.
-/

namespace SchemaLoom

open Schema

variable {g : Grammar} {loc : Location} {d : Document} {members : Members} {name : String}
variable {structs : List Struct} {s : Struct}

/-! ## What a struct should look like -/

/-- The dimensions of a property's schema: one for each array on the way through its items, the
outermost first, and that of a string at the end. -/
inductive Shape : Document → List Dim → Prop where
  | array {members : Members} {items : Document} {bounds : Dim} {dims : List Dim}
      (h : string? members "type" = some "array") (hbounds : HasBounds members bounds)
      (hitems : Members.get? "items" members = some items) (hin : Shape items dims) :
      Shape (.obj members) (bounds :: dims)
  | string {members : Members} {length : Nat} (h : string? members "type" = some "string")
      (hlength : count? "maxLength" members = some length) :
      Shape (.obj members) [⟨length, length⟩]
  | other {members : Members} {type : String} (h : string? members "type" = some type)
      (harray : type ≠ "array") (hstring : type ≠ "string") : Shape (.obj members) []

/-- A struct with a field for each property of an object schema. -/
structure Describes (members : Members) (s : Struct) : Prop where
  object : string? members "type" = some "object"
  supported : Supported members
  names : s.fields.map Field.name = Members.keys (properties members)
  required : ∀ f ∈ s.fields, f.required = true ↔
    ∃ items, Members.get? "required" members = some (.arr items) ∧ .str f.name ∈ items
  types : ∀ f ∈ s.fields, ∃ schema t, Members.get? f.name (properties members) = some schema ∧
    f.type = .single t ∧ Shape schema t.dims ∧ ∀ bounds ∈ t.dims, bounds.min ≤ bounds.max

/-! ## Dimensions -/

/-- The type of a property has the dimensions of its schema, and each has room for what it must
hold. -/
theorem shape_of_resolved {parent prop : String} {t : CType}
    (h : Resolved parent prop loc d t structs) :
    Shape d t.dims ∧ ∀ bounds ∈ t.dims, bounds.min ≤ bounds.max := by
  induction h with
  | object h => exact ⟨.other h (by decide) (by decide), List.forall_mem_nil _⟩
  | array _ h hdim hitems _ ih =>
    have hbounds := toOption_dim_eq_some_iff.1 hdim
    exact ⟨.array h hbounds hitems ih.1, List.forall_mem_cons.2 ⟨hbounds.le, ih.2⟩⟩
  | scalar _ h _ harray hscalar =>
    rcases scalarType?_eq_some_iff.1 hscalar with ⟨hnumber, name, -, rfl⟩ |
      ⟨rfl, length, hlength, rfl⟩ | ⟨hbool, rfl⟩
    · refine ⟨.other h harray ?_, List.forall_mem_nil _⟩
      rintro rfl
      exact absurd hnumber (by decide)
    · exact ⟨.string h hlength, List.forall_mem_singleton.2 (Nat.le_refl length)⟩
    · refine ⟨.other h harray ?_, List.forall_mem_nil _⟩
      rintro rfl
      exact absurd hbool (by decide)

/-! ## The structs of one object schema -/

theorem contains_strings_iff {keyword text : String} :
    (strings members keyword).contains text = true ↔
      ∃ items, Members.get? keyword members = some (.arr items) ∧ .str text ∈ items := by
  rw [List.contains_iff_mem]
  unfold strings
  split
  next items h =>
    rw [List.mem_filterMap, h]
    constructor
    · rintro ⟨x, hx, htext⟩
      cases x <;> cases htext
      exact ⟨items, rfl, hx⟩
    · rintro ⟨_, heq, hmem⟩
      cases heq
      exact ⟨_, hmem, rfl⟩
  next h => exact ⟨(fun hmem => nomatch hmem), fun ⟨items, hitems, _⟩ => absurd hitems (h items)⟩

/-- The struct of an object schema describes it. -/
theorem describes_fields (hd : (Document.obj members).Distinct)
    (hobject : string? members "type" = some "object") (hsupported : unsupported? members = none)
    {ps : List Property} (hps : ps.map Property.member = properties members)
    (hresolved : ∀ p ∈ ps, p.IsResolved name (loc.push "properties")) :
    Describes members
      ⟨.plain name, loc, ps.map (Property.field (strings members "required"))⟩ where
  object := hobject
  supported := unsupported?_eq_none_iff.1 hsupported
  names := by
    rw [← hps, Members.keys, List.map_map, List.map_map]
    rfl
  required := by
    intro f hf
    obtain ⟨p, -, rfl⟩ := List.mem_map.1 hf
    exact contains_strings_iff
  types := by
    intro f hf
    obtain ⟨p, hp, rfl⟩ := List.mem_map.1 hf
    have hmem : p.member ∈ properties members := hps ▸ List.mem_map_of_mem hp
    obtain ⟨hshape, hbounds⟩ := shape_of_resolved (hresolved p hp)
    exact ⟨p.schema, p.ctype, get?_of_mem_properties hd hmem, rfl, hshape, hbounds⟩

/-- Every struct of an object schema describes the schema at its location. -/
theorem Gives.describes (h : Gives name loc members s) (hd : d.Distinct)
    (hx : d.at? loc.segments = some (.obj members))
    (hobject : string? members "type" = some "object") :
    ∃ inner, d.at? s.location.segments = some (.obj inner) ∧ Describes inner s := by
  induction h with
  | @own _ _ members _ hsupported hps hresolved =>
    exact ⟨members, hx, describes_fields (hd.at? hx) hobject hsupported hps hresolved⟩
  | nested hm hreach _ ih =>
    exact ih (hreach.at? (at?_of_mem_properties hd hx hm)) hreach.isObject

/-- Every object schema that properties lead to has a struct. -/
theorem exists_struct_of_nests {chain : List String} {place : Location}
    (hnests : Nests chain loc members place) (h : flattenObject name loc members = .ok structs) :
    ∃ s ∈ structs, s.location = place := by
  induction hnests generalizing name structs with
  | here =>
    obtain ⟨s, hs, hloc, -⟩ := exists_struct_of_flattenObject h
    exact ⟨s, hs, hloc⟩
  | property hproperties hschema hreach _ ih =>
    obtain ⟨-, ps, hps, hresolved, rfl⟩ := flattenObject_cases h
    have hmem := Members.mem_of_get? hschema
    rw [← properties_of_get? hproperties, ← hps] at hmem
    obtain ⟨p, hp, heq⟩ := List.mem_map.1 hmem
    cases heq
    obtain ⟨s, hs, hloc⟩ := ih (Resolved.of_reaches (hresolved p hp) hreach).2
    exact ⟨s, List.mem_append_left _ (List.mem_flatMap.2 ⟨p, hp, hs⟩), hloc⟩

/-- No two structs of an object schema are at one place: different properties lead to places that are
apart, and the schema itself is above them. -/
theorem nodup_of_flattenObject (hd : d.Distinct) (hx : d.at? loc.segments = some (.obj members))
    (h : flattenObject name loc members = .ok structs) :
    (structs.map Struct.location).Nodup := by
  induction name, loc, members, structs, h using flattenObject_induction with
  | object name loc members ps _ _ hps hresolved ih =>
    have hnames : (ps.map Property.name).Nodup := by
      have hkeys := nodup_keys_properties (hd.at? hx)
      rw [← hps, Members.keys, List.map_map] at hkeys
      exact hkeys
    rw [List.map_append, List.map_flatMap, List.map_singleton, List.nodup_append]
    refine ⟨List.nodup_flatMap.2 ⟨fun p hp => ?_, ?_⟩, List.nodup_singleton _, ?_⟩
    · have hmem : p.member ∈ properties members := hps ▸ List.mem_map_of_mem hp
      rcases ih p hp with hnil | ⟨loc', inner, hreach, -, ih⟩
      · rw [hnil]
        exact List.nodup_nil
      · exact ih (hreach.at? (at?_of_mem_properties hd hx hmem))
    · refine (List.pairwise_map.1 hnames).imp_of_mem fun {p q} hp hq hne => ?_
      intro l hl hl'
      obtain ⟨s, hs, rfl⟩ := List.mem_map.1 hl
      obtain ⟨s', hs', heq⟩ := List.mem_map.1 hl'
      have hwithin' := (hresolved q hq).within hs'
      rw [heq] at hwithin'
      exact (Location.apart_of_push hne ((hresolved p hp).within hs) hwithin').1 (.refl _)
    · intro l hl l' hl' heq
      obtain ⟨p, hp, hl⟩ := List.mem_flatMap.1 hl
      obtain ⟨s, hs, rfl⟩ := List.mem_map.1 hl
      cases List.mem_singleton.1 hl'
      have hwithin := ((hresolved p hp).within hs).of_push
      rw [heq] at hwithin
      exact Location.not_within_push loc "properties" hwithin

/-! ## Whole documents -/

/-- The structs that a named object schema gives are at different places. -/
theorem nodup_ofEntry {step : Step} (hd : d.Distinct) (hstep : step ∈ namedObjects g d) :
    ((Flattened.ofEntry step).structs.map Struct.location).Nodup := by
  obtain ⟨members, -, hx, -, hentry⟩ := flattenEntry_of_mem_namedObjects hd hstep
  unfold Flattened.ofEntry
  cases h : flattenEntry step with
  | error e => exact List.nodup_nil
  | ok structs => exact nodup_of_flattenObject hd hx (hentry ▸ h)

theorem nodup_structs_flatten (hg : g.BuiltIn) (hd : d.Distinct) :
    ((flatten g [d]).structs.map Struct.location).Nodup := by
  rw [flatten_singleton, Flattened.concat, List.flatMap_map, List.map_flatMap, List.nodup_flatMap]
  refine ⟨fun step hstep => nodup_ofEntry hd hstep, ?_⟩
  refine (pairwise_namedObjects hg hd).imp_of_mem fun {a b} ha hb hapart => ?_
  intro l hl hl'
  have hwithin := within_ofEntry (mem_namedObjects_iff.1 ha).2.2 l (List.mem_append_left _ hl)
  have hwithin' := within_ofEntry (mem_namedObjects_iff.1 hb).2.2 l (List.mem_append_left _ hl')
  exact hapart.not_within hwithin hwithin'

/-- A named object schema has no error exactly if it fits. -/
theorem errors_ofEntry_eq_nil_iff {step : Step} (hd : d.Distinct)
    (hstep : step ∈ namedObjects g d) :
    (Flattened.ofEntry step).errors = [] ↔ Fits step.value := by
  obtain ⟨members, hvalue, -, hobject, hentry⟩ := flattenEntry_of_mem_namedObjects hd hstep
  have hfits : (∃ structs, flattenEntry step = .ok structs) ↔ Fits step.value := by
    rw [hentry, hvalue]
    exact exists_flattenObject_eq_ok_iff hobject
  rw [← hfits]
  unfold Flattened.ofEntry
  cases flattenEntry step with
  | ok structs => exact ⟨fun _ => ⟨structs, rfl⟩, fun _ => rfl⟩
  | error e =>
    constructor
    · intro h
      cases h
    · rintro ⟨structs, h⟩
      cases h

/-- The structs of a named object schema without an error are those of the schemas nested in it. -/
theorem exists_struct_ofEntry_iff {step : Step} (hd : d.Distinct)
    (hstep : step ∈ namedObjects g d) (herrors : (Flattened.ofEntry step).errors = []) :
    ∃ members, step.value = .obj members ∧
      ∀ loc, (∃ s ∈ (Flattened.ofEntry step).structs, s.location = loc) ↔
        ∃ chain, Nests chain step.location members loc := by
  obtain ⟨members, hvalue, hx, -, hentry⟩ := flattenEntry_of_mem_namedObjects hd hstep
  refine ⟨members, hvalue, fun loc => ?_⟩
  unfold Flattened.ofEntry at herrors ⊢
  cases h : flattenEntry step with
  | error e =>
    rw [h] at herrors
    cases herrors
  | ok structs =>
    have hstructs := hentry ▸ h
    constructor
    · rintro ⟨s, hs, rfl⟩
      obtain ⟨chain, hnests, -⟩ := (gives_of_flattenObject hstructs hs).nests hd hx
      exact ⟨chain, hnests⟩
    · rintro ⟨chain, hnests⟩
      exact exists_struct_of_nests hnests hstructs

/-- Every struct of a document has the fields that the schema at its location asks for; no two of
them are at one place; and a named object schema has no error at its place, or below it, exactly if
it fits, and then the structs there are those of this schema and of all that are nested in it. -/
theorem flatten_faithful (hg : g.BuiltIn) (hd : d.Distinct) (ha : d.Addressable) :
    (∀ s ∈ (flatten g [d]).structs,
      ∃ members, s.location.resolve d = some (.obj members) ∧ Describes members s) ∧
    ((flatten g [d]).structs.map Struct.location).Nodup ∧
    ∀ step ∈ namedObjects g d,
      (((flatten g [d]).within step.location).errors = [] ↔ Fits step.value) ∧
      (((flatten g [d]).within step.location).errors = [] →
        ∃ members, step.value = .obj members ∧
          ∀ loc, (∃ s ∈ ((flatten g [d]).within step.location).structs, s.location = loc) ↔
            ∃ chain, Nests chain step.location members loc) := by
  refine ⟨fun s hs => ?_, nodup_structs_flatten hg hd, fun step hstep => ?_⟩
  · obtain ⟨step, hstep, structs, hstructs, hs⟩ := exists_namedObject_of_mem_structs hs
    obtain ⟨members, -, hx, hobject, hentry⟩ := flattenEntry_of_mem_namedObjects hd hstep
    obtain ⟨inner, hinner, hdescribes⟩ :=
      (gives_of_flattenObject (hentry ▸ hstructs) hs).describes hd hx hobject
    exact ⟨inner, Document.resolve_of_at? ha hinner, hdescribes⟩
  · rw [within_flatten hg hd hstep]
    exact ⟨errors_ofEntry_eq_nil_iff hd hstep, exists_struct_ofEntry_iff hd hstep⟩

/-- A named schema that holds an array of objects has a struct for itself and one for the objects. -/
theorem flatten_faithful_devices :
    (Grammar.openApi.BuiltIn ∧ deviceSchemas.Distinct ∧ deviceSchemas.Addressable) ∧
    (∃ s ∈ (flatten .openApi [deviceSchemas]).structs, s.name = "sensor_log" ∧
      ∃ members, s.location.resolve deviceSchemas = some (.obj members) ∧ Describes members s) ∧
    ((flatten .openApi [deviceSchemas]).structs.map Struct.location).Nodup ∧
    Fits (.obj sensorSchema) ∧
    ((flatten .openApi [deviceSchemas]).within sensorLocation).errors = [] ∧
    ∀ loc, (∃ s ∈ ((flatten .openApi [deviceSchemas]).within sensorLocation).structs,
      s.location = loc) ↔ ∃ chain, Nests chain sensorLocation sensorSchema loc := by
  have hg : Grammar.openApi.BuiltIn := .inl rfl
  obtain ⟨hdescribes, hnodup, hnests⟩ :=
    flatten_faithful hg distinct_deviceSchemas addressable_deviceSchemas
  have hlog : ∃ s ∈ (flatten .openApi [deviceSchemas]).structs, s.name = "sensor_log" := by
    rw [flatten_deviceSchemas]
    exact ⟨_, List.mem_cons_self, rfl⟩
  have herrors : ((flatten .openApi [deviceSchemas]).within sensorLocation).errors = [] := by
    rw [flatten_deviceSchemas]
    rfl
  obtain ⟨s, hs, hname⟩ := hlog
  obtain ⟨hfits, hschemas⟩ := hnests _ List.mem_cons_self
  obtain ⟨_, heq, hsensor⟩ := hschemas herrors
  cases heq
  exact ⟨⟨hg, distinct_deviceSchemas, addressable_deviceSchemas⟩,
    ⟨s, hs, hname, hdescribes s hs⟩, hnodup, hfits.1 herrors, herrors, hsensor⟩

end SchemaLoom
