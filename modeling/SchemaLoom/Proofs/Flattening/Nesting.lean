import SchemaLoom.Proofs.Document.Parts
import SchemaLoom.Proofs.Flattening.Schemas

/-!
# Schemas nested in schemas

The schema of a property comes down to an object schema, through the items of arrays, or to a scalar.
Flattening follows the properties from one object schema to the next.

- `Reaches`: the object schema that a property's schema comes down to.
- `Nests`: the properties that lead from one object schema to another.
- `Resolved`: what a property's schema gives, by the shape of the schema.
- `Property`: a property with what its schema gives.
- `flattenObject_cases`: what the structs of an object schema are made of.
- `flattenObject_induction`: to prove something of the structs of every object schema, prove it from
  what its properties come down to.
- `Gives`: the structs of an object schema one by one.
- `Subschema`: the schemas that flattening may come to from a schema.  An error is at one of them.
-/

namespace SchemaLoom

open Schema

variable {loc loc' base : Location} {d x : Document} {members inner : Members}
variable {name parent prop : String} {structs : List Struct} {t : CType}

/-! ## Unsupported keywords -/

/-- A schema is no reference and does not combine others. -/
def Schema.Supported (members : Members) : Prop :=
  ∀ keyword ∈ ["$ref", "allOf", "anyOf", "oneOf"], Members.contains keyword members = false

theorem Schema.unsupported?_eq_none_iff : unsupported? members = none ↔ Supported members := by
  unfold Supported unsupported?
  rw [List.forall_mem_cons]
  split
  next href =>
    constructor
    · intro h
      cases h
    · intro h
      rw [href] at h
      cases h.1
  next href =>
    rw [Option.map_eq_none_iff, List.find?_eq_none]
    constructor
    · intro h
      exact ⟨Bool.eq_false_iff.2 href, fun keyword hmem => Bool.eq_false_iff.2 (h keyword hmem)⟩
    · intro h keyword hmem
      exact Bool.eq_false_iff.1 (h.2 keyword hmem)

/-! ## Ways through schemas -/

/-- The object schema that a schema comes down to through the items of arrays, and its location. -/
inductive Reaches : Location → Document → Location → Members → Prop where
  | object {loc : Location} {members : Members} (h : string? members "type" = some "object") :
      Reaches loc (.obj members) loc members
  | items {loc loc' : Location} {members inner : Members} {d : Document}
      (h : string? members "type" = some "array") (hitems : Members.get? "items" members = some d)
      (hin : Reaches (loc.push "items") d loc' inner) : Reaches loc (.obj members) loc' inner

namespace Reaches

theorem unique {loc'' : Location} {inner' : Members} (h : Reaches loc d loc' inner)
    (h' : Reaches loc d loc'' inner') : loc' = loc'' ∧ inner = inner' := by
  induction h with
  | object h =>
    cases h' with
    | object => exact ⟨rfl, rfl⟩
    | items hother =>
      rw [h] at hother
      exact absurd (Option.some.inj hother) (by decide)
  | items h hitems _ ih =>
    cases h' with
    | object hother =>
      rw [h] at hother
      exact absurd (Option.some.inj hother) (by decide)
    | items _ hitems' hin' =>
      rw [hitems] at hitems'
      cases hitems'
      exact ih hin'

theorem sizeOf_lt (h : Reaches loc d loc' inner) : sizeOf inner < sizeOf d := by
  induction h with
  | object => simp
  | items _ hitems _ ih =>
    have hsize := sizeOf_get? hitems
    simp
    omega

theorem isObject (h : Reaches loc d loc' inner) : string? inner "type" = some "object" := by
  induction h with
  | object h => exact h
  | items _ _ _ ih => exact ih

theorem within (h : Reaches loc d loc' inner) : loc'.Within loc := by
  induction h with
  | object => exact .refl _
  | items _ _ _ ih => exact ih.of_push

/-- What a schema in a document comes down to is in the document too. -/
theorem at? (h : Reaches loc x loc' inner) (hx : d.at? loc.segments = some x) :
    d.at? loc'.segments = some (.obj inner) := by
  induction h with
  | object => exact hx
  | items _ hitems _ ih => exact ih (Document.at?_push hx hitems)

end Reaches

/-- The names of the properties that lead from an object schema to another one, and the location of
that one. -/
inductive Nests : List String → Location → Members → Location → Prop where
  | here {loc : Location} {members : Members} : Nests [] loc members loc
  | property {loc loc' nested : Location} {members inner properties : Members} {prop : String}
      {schema : Document} {chain : List String}
      (hproperties : Members.get? "properties" members = some (.obj properties))
      (hschema : Members.get? prop properties = some schema)
      (hreach : Reaches ((loc.push "properties").push prop) schema loc' inner)
      (h : Nests chain loc' inner nested) : Nests (prop :: chain) loc members nested

/-- The properties lead to one schema only. -/
theorem Nests.unique {chain : List String} {loc'' : Location} (h : Nests chain loc members loc')
    (h' : Nests chain loc members loc'') : loc' = loc'' := by
  induction h with
  | here =>
    cases h'
    rfl
  | property hproperties hschema hreach _ ih =>
    cases h' with
    | property hproperties' hschema' hreach' h' =>
      rw [hproperties] at hproperties'
      cases hproperties'
      rw [hschema] at hschema'
      cases hschema'
      obtain ⟨rfl, rfl⟩ := hreach.unique hreach'
      exact ih h'

/-! ## The properties of a schema -/

/-- The properties of a schema; it has none if what it calls so is no object. -/
def Schema.properties (members : Members) : Members :=
  ((Members.get? "properties" members).bind Document.asObject?).getD []

theorem Document.eq_obj_of_asObject? {d : Document} (h : d.asObject? = some members) :
    d = .obj members := by
  cases d with
  | obj =>
    cases h
    rfl
  | null | bool | num | str | arr => cases h

/-- A schema that has a property has an object under the keyword. -/
theorem Schema.get?_properties_of_mem {m : String × Document} (h : m ∈ properties members) :
    Members.get? "properties" members = some (.obj (properties members)) := by
  unfold properties at h ⊢
  cases hfound : (Members.get? "properties" members).bind Document.asObject? with
  | none =>
    rw [hfound] at h
    cases h
  | some found =>
    obtain ⟨y, hy, hobject⟩ := Option.bind_eq_some_iff.1 hfound
    rw [hy, Document.eq_obj_of_asObject? hobject]
    rfl

theorem Schema.properties_of_get? {found : Members}
    (h : Members.get? "properties" members = some (.obj found)) : properties members = found := by
  unfold properties
  rw [h]
  rfl

theorem Schema.nodup_keys_properties (hd : (Document.obj members).Distinct) :
    (Members.keys (properties members)).Nodup := by
  by_cases hempty : properties members = []
  · rw [hempty]
    exact List.nodup_nil
  · obtain ⟨m, hm⟩ := List.exists_mem_of_ne_nil _ hempty
    exact (Document.distinct_obj.1 (hd.get? (get?_properties_of_mem hm))).1

theorem Schema.sizeOf_lt_of_mem_properties {m : String × Document}
    (h : m ∈ properties members) : sizeOf m.2 < sizeOf members := by
  have hproperties := sizeOf_get?_obj (get?_properties_of_mem h)
  have hm := List.sizeOf_lt_of_mem h
  obtain ⟨k, v⟩ := m
  simp at hm ⊢
  omega

theorem Schema.get?_of_mem_properties (hd : (Document.obj members).Distinct)
    {m : String × Document} (h : m ∈ properties members) :
    Members.get? m.1 (properties members) = some m.2 :=
  Members.get?_of_mem (nodup_keys_properties hd) h

/-- The properties of a schema in a document are in the document too. -/
theorem Schema.at?_of_mem_properties (hd : d.Distinct)
    (hx : d.at? loc.segments = some (.obj members)) {m : String × Document}
    (h : m ∈ properties members) :
    d.at? ((loc.push "properties").push m.1).segments = some m.2 := by
  have hproperties : d.at? (loc.push "properties").segments = some (.obj (properties members)) :=
    Document.at?_push hx (get?_properties_of_mem h)
  exact Document.at?_push hproperties (get?_of_mem_properties (hd.at? hx) h)

/-! ## What a property's schema gives -/

/-- What the schema of a property gives: the type of an object or a scalar, with one dimension more
for each array around it, and the structs of the object. -/
inductive Resolved (parent prop : String) :
    Location → Document → CType → List Struct → Prop where
  | object {loc : Location} {members : Members} {structs : List Struct}
      (h : string? members "type" = some "object")
      (hobject : flattenObject (nestedName parent prop) loc members = .ok structs) :
      Resolved parent prop loc (.obj members) (.plain (nestedName parent prop)) structs
  | array {loc : Location} {members : Members} {items : Document} {bounds : Dim} {t : CType}
      {structs : List Struct} (hsupported : unsupported? members = none)
      (h : string? members "type" = some "array")
      (hdim : (dim members).toOption = some bounds)
      (hitems : Members.get? "items" members = some items)
      (hin : Resolved parent prop (loc.push "items") items t structs) :
      Resolved parent prop loc (.obj members) ⟨t.name, bounds :: t.dims⟩ structs
  | scalar {loc : Location} {members : Members} {type : String} {t : CType}
      (hsupported : unsupported? members = none) (h : string? members "type" = some type)
      (hobject : type ≠ "object") (harray : type ≠ "array")
      (hscalar : scalarType? type members = some t) :
      Resolved parent prop loc (.obj members) t []

theorem located_eq_ok_iff {α : Type} {r : Except FlattenError α} {a : α} :
    located r = .ok a ↔ r = .ok a := by
  cases r with
  | ok => simp
  | error e => simp

theorem located_map_eq_ok {α β : Type} {r : Except FlattenError α} {f : α → β} {b : β}
    (h : (located r).map f = .ok b) : ∃ a, r = .ok a ∧ f a = b := by
  cases r with
  | error => cases h
  | ok a =>
    cases h
    exact ⟨a, rfl, rfl⟩

theorem resolved_of_resolveType (h : resolveType parent prop loc d = .ok (t, structs)) :
    Resolved parent prop loc d t structs := by
  induction d using Document.induction generalizing loc t structs with
  | null | bool | num | str | arr =>
    have hl := located_eq_ok_iff.2 h
    rw [located_resolveType_of_not_object rfl] at hl
    cases hl
  | obj members ih =>
    have hl := located_eq_ok_iff.2 h
    rw [located_resolveType] at hl
    split at hl
    next => cases hl
    next hunsupported =>
      have hsupported := Option.not_isSome_iff_eq_none.1 hunsupported
      split at hl
      next => cases hl
      next type htype =>
        split at hl
        next hobject =>
          subst hobject
          obtain ⟨found, hfound, heq⟩ := located_map_eq_ok hl
          cases heq
          exact .object htype hfound
        next hobject =>
          split at hl
          next harray =>
            subst harray
            split at hl
            next bounds items hdim hitems =>
              obtain ⟨r, hr, heq⟩ := located_map_eq_ok hl
              cases heq
              exact .array hsupported htype hdim hitems (ih _ (Members.mem_of_get? hitems) hr)
            next => cases hl
          next harray =>
            split at hl
            next hscalar =>
              cases hl
              exact .scalar hsupported htype hobject harray hscalar
            next => cases hl

namespace Resolved

/-- If the schema comes down to an object schema, the structs are those of the object schema, and the
type is named after it. -/
theorem of_reaches (h : Resolved parent prop loc d t structs) (hr : Reaches loc d loc' inner) :
    t.name = nestedName parent prop ∧
      flattenObject (nestedName parent prop) loc' inner = .ok structs := by
  induction h with
  | object h hobject =>
    obtain ⟨rfl, rfl⟩ := hr.unique (.object h)
    exact ⟨rfl, hobject⟩
  | array _ h _ hitems _ ih =>
    cases hr with
    | object hother =>
      rw [h] at hother
      exact absurd (Option.some.inj hother) (by decide)
    | items _ hitems' hin =>
      rw [hitems] at hitems'
      cases hitems'
      exact ih hin
  | scalar _ h hobject harray _ =>
    cases hr with
    | object hother =>
      rw [h] at hother
      exact absurd (Option.some.inj hother) hobject
    | items hother =>
      rw [h] at hother
      exact absurd (Option.some.inj hother) harray

/-- If there are any structs, the schema comes down to an object schema. -/
theorem eq_nil_or_reaches (h : Resolved parent prop loc d t structs) :
    structs = [] ∨ ∃ loc' inner, Reaches loc d loc' inner := by
  induction h with
  | object h => exact .inr ⟨_, _, .object h⟩
  | array _ h _ hitems _ ih =>
    refine ih.imp_right ?_
    rintro ⟨loc', inner, hr⟩
    exact ⟨loc', inner, .items h hitems hr⟩
  | scalar => exact .inl rfl

end Resolved

/-! ## The structs of an object schema -/

/-- A property with what its schema gives. -/
structure Property where
  name : String
  schema : Document
  ctype : CType
  structs : List Struct

namespace Property

def member (p : Property) : String × Document :=
  (p.name, p.schema)

/-- The field of the property, given which properties are required. -/
def field (required : List String) (p : Property) : Field :=
  ⟨p.name, .single p.ctype, required.contains p.name⟩

/-- The type and the structs are what the schema gives, at a location and under the name of the
struct that holds the property. -/
def IsResolved (name : String) (base : Location) (p : Property) : Prop :=
  Resolved name p.name (base.push p.name) p.schema p.ctype p.structs

end Property

theorem exists_properties_of_flattenFields {required : List String} {properties : Members}
    {fields : List Field}
    (h : flattenFields name required base properties = .ok (fields, structs)) :
    ∃ ps : List Property, ps.map Property.member = properties ∧
      (∀ p ∈ ps, p.IsResolved name base) ∧ fields = ps.map (Property.field required) ∧
      structs = ps.flatMap Property.structs := by
  induction properties generalizing fields structs with
  | nil =>
    rw [flattenFields] at h
    cases h
    exact ⟨[], rfl, List.forall_mem_nil _, rfl, rfl⟩
  | cons m rest ih =>
    obtain ⟨prop, schema⟩ := m
    rw [flattenFields] at h
    cases hr : resolveType name prop (base.push prop) schema with
    | error e =>
      rw [hr] at h
      cases h
    | ok r =>
      cases hrest : flattenFields name required base rest with
      | error e =>
        rw [hr, hrest] at h
        cases h
      | ok more =>
        rw [hr, hrest] at h
        cases h
        obtain ⟨ps, hps, hresolved, hfields, hstructs⟩ := ih hrest
        refine ⟨⟨prop, schema, r.1, r.2⟩ :: ps, ?_, ?_, ?_, ?_⟩
        · rw [List.map_cons, hps]
          rfl
        · exact List.forall_mem_cons.2 ⟨resolved_of_resolveType hr, hresolved⟩
        · rw [List.map_cons, hfields]
          rfl
        · rw [List.flatMap_cons, hstructs]

/-- The structs of an object schema are those of its properties and then its own, which has a field
for each property. -/
theorem flattenObject_cases (h : flattenObject name loc members = .ok structs) :
    unsupported? members = none ∧ ∃ ps : List Property,
      ps.map Property.member = properties members ∧
      (∀ p ∈ ps, p.IsResolved name (loc.push "properties")) ∧
      structs = ps.flatMap Property.structs ++
        [⟨.plain name, loc, ps.map (Property.field (strings members "required"))⟩] := by
  have hl := located_eq_ok_iff.2 h
  rw [located_flattenObject] at hl
  split at hl
  next => cases hl
  next hsupported =>
    refine ⟨Option.not_isSome_iff_eq_none.1 hsupported, ?_⟩
    unfold properties
    split at hl
    next hnone =>
      cases hl
      rw [hnone]
      exact ⟨[], rfl, List.forall_mem_nil _, rfl⟩
    next found hfound =>
      obtain ⟨⟨fields, below⟩, hf, heq⟩ := located_map_eq_ok hl
      obtain ⟨ps, hps, hresolved, hfields, hbelow⟩ := exists_properties_of_flattenFields hf
      rw [hfound]
      exact ⟨ps, hps, hresolved, by rw [← heq, hfields, hbelow]⟩

/-- Induction over the structs of object schemas: the structs of a property are none, or those of the
object schema that its schema comes down to. -/
@[elab_as_elim]
theorem flattenObject_induction
    {motive : ∀ (name : String) (loc : Location) (members : Members) (structs : List Struct),
      flattenObject name loc members = .ok structs → Prop}
    (object : ∀ (name : String) (loc : Location) (members : Members) (ps : List Property)
      (h : flattenObject name loc members = .ok (ps.flatMap Property.structs ++
        [⟨.plain name, loc, ps.map (Property.field (strings members "required"))⟩])),
      unsupported? members = none → ps.map Property.member = properties members →
      (∀ p ∈ ps, p.IsResolved name (loc.push "properties")) →
      (∀ p ∈ ps, p.structs = [] ∨ ∃ loc' inner,
        Reaches ((loc.push "properties").push p.name) p.schema loc' inner ∧
          ∃ hp, motive (nestedName name p.name) loc' inner p.structs hp) →
      motive name loc members _ h)
    (name : String) (loc : Location) (members : Members) (structs : List Struct)
    (h : flattenObject name loc members = .ok structs) : motive name loc members structs h := by
  -- a nested schema is smaller than the one that holds it, and may be many levels below it
  induction hn : sizeOf members using Nat.strongRecOn generalizing name loc members structs with
  | ind n ih =>
    subst hn
    obtain ⟨hsupported, ps, hps, hresolved, rfl⟩ := flattenObject_cases h
    refine object name loc members ps h hsupported hps hresolved fun p hp => ?_
    refine (hresolved p hp).eq_nil_or_reaches.imp_right ?_
    rintro ⟨loc', inner, hreach⟩
    have hmem : p.member ∈ properties members := hps ▸ List.mem_map_of_mem hp
    have hsize : sizeOf inner < sizeOf members :=
      Nat.lt_trans hreach.sizeOf_lt (sizeOf_lt_of_mem_properties hmem)
    have hobject := ((hresolved p hp).of_reaches hreach).2
    exact ⟨loc', inner, hreach, hobject, ih _ hsize _ _ _ _ hobject rfl⟩

theorem exists_struct_of_flattenObject (h : flattenObject name loc members = .ok structs) :
    ∃ s ∈ structs, s.location = loc ∧ s.ctype = .plain name := by
  obtain ⟨-, ps, -, -, rfl⟩ := flattenObject_cases h
  exact ⟨_, List.mem_append_right _ List.mem_cons_self, rfl, rfl⟩

/-- A struct that an object schema gives: its own, or one that is given by an object schema which the
schema of a property comes down to. -/
inductive Gives : String → Location → Members → Struct → Prop where
  | own {name : String} {loc : Location} {members : Members} {ps : List Property}
      (hsupported : unsupported? members = none)
      (hps : ps.map Property.member = properties members)
      (hresolved : ∀ p ∈ ps, p.IsResolved name (loc.push "properties")) :
      Gives name loc members
        ⟨.plain name, loc, ps.map (Property.field (strings members "required"))⟩
  | nested {name : String} {loc loc' : Location} {members inner : Members}
      {m : String × Document} {s : Struct} (hm : m ∈ properties members)
      (hreach : Reaches ((loc.push "properties").push m.1) m.2 loc' inner)
      (h : Gives (nestedName name m.1) loc' inner s) : Gives name loc members s

theorem gives_of_flattenObject {s : Struct} (h : flattenObject name loc members = .ok structs)
    (hs : s ∈ structs) : Gives name loc members s := by
  induction name, loc, members, structs, h using flattenObject_induction with
  | object name loc members ps _ hsupported hps hresolved ih =>
    rcases List.mem_append.1 hs with hs | hs
    · obtain ⟨p, hp, hs⟩ := List.mem_flatMap.1 hs
      have hmem : p.member ∈ properties members := hps ▸ List.mem_map_of_mem hp
      rcases ih p hp with hnil | ⟨loc', inner, hreach, -, ih⟩
      · rw [hnil] at hs
        cases hs
      · exact .nested hmem hreach (ih hs)
    · cases List.mem_singleton.1 hs
      exact .own hsupported hps hresolved

theorem Gives.within {s : Struct} (h : Gives name loc members s) : s.location.Within loc := by
  induction h with
  | own => exact .refl _
  | nested _ hreach _ ih => exact (ih.trans hreach.within).of_push.of_push

/-- The structs of a property are at the place of the property's schema or below it. -/
theorem Property.IsResolved.within {p : Property} {s : Struct} (h : p.IsResolved name base)
    (hs : s ∈ p.structs) : s.location.Within (base.push p.name) := by
  rcases Resolved.eq_nil_or_reaches h with hnil | ⟨loc', inner, hreach⟩
  · rw [hnil] at hs
    cases hs
  · have hgives := gives_of_flattenObject (Resolved.of_reaches h hreach).2 hs
    exact hgives.within.trans hreach.within

/-! ## The errors of a schema -/

/-- The location of a schema or of one inside of it, by properties and the items of arrays. -/
inductive Subschema : Location → Document → Location → Prop where
  | here {loc : Location} {d : Document} : Subschema loc d loc
  | property {loc place : Location} {members : Members} {m : String × Document}
      (hm : m ∈ properties members)
      (h : Subschema ((loc.push "properties").push m.1) m.2 place) :
      Subschema loc (.obj members) place
  | items {loc place : Location} {members : Members} {items : Document}
      (hitems : Members.get? "items" members = some items)
      (h : Subschema (loc.push "items") items place) : Subschema loc (.obj members) place

theorem Subschema.within (h : Subschema loc d loc') : loc'.Within loc := by
  induction h with
  | here => exact .refl _
  | property _ _ ih => exact ih.of_push.of_push
  | items _ _ ih => exact ih.of_push

/-- The schemas inside of a schema in a document are in the document too. -/
theorem Subschema.exists_at? (h : Subschema loc x loc') (hd : d.Distinct)
    (hx : d.at? loc.segments = some x) : ∃ y, d.at? loc'.segments = some y := by
  induction h with
  | here => exact ⟨_, hx⟩
  | property hm _ ih => exact ih (at?_of_mem_properties hd hx hm)
  | items hitems _ ih => exact ih (Document.at?_push hx hitems)

theorem located_eq_error_of_map {α β : Type} {r : Except FlattenError α} {f : α → β}
    (h : (located r).map f = .error loc) : located r = .error loc := by
  cases r with
  | ok => cases h
  | error e =>
    cases h
    rfl

theorem exists_of_located_flattenFields {required : List String} {properties : Members}
    (h : located (flattenFields name required base properties) = .error loc) :
    ∃ m ∈ properties, located (resolveType name m.1 (base.push m.1) m.2) = .error loc := by
  induction properties with
  | nil =>
    rw [located_flattenFields_nil] at h
    cases h
  | cons m rest ih =>
    obtain ⟨prop, schema⟩ := m
    rw [located_flattenFields_cons] at h
    cases hr : located (resolveType name prop (base.push prop) schema) with
    | error l =>
      rw [hr] at h
      cases h
      exact ⟨(prop, schema), List.mem_cons_self, hr⟩
    | ok r =>
      rw [hr] at h
      obtain ⟨m, hm, herror⟩ := ih (located_eq_error_of_map h)
      exact ⟨m, List.mem_cons_of_mem _ hm, herror⟩

/-- The error of an object schema is at its place, or it is that of a property. -/
theorem located_flattenObject_cases (h : located (flattenObject name loc members) = .error loc') :
    loc' = loc ∨ ∃ m ∈ properties members,
      located (resolveType name m.1 ((loc.push "properties").push m.1) m.2) = .error loc' := by
  rw [located_flattenObject] at h
  split at h
  next =>
    cases h
    exact .inl rfl
  next =>
    split at h
    next => cases h
    next found hfound =>
      obtain ⟨y, hy, hobject⟩ := Option.bind_eq_some_iff.1 hfound
      cases Document.eq_obj_of_asObject? hobject
      rw [properties_of_get? hy]
      exact .inr (exists_of_located_flattenFields (located_eq_error_of_map h))

/-- The error of a property's schema is at the schema or at one inside of it. -/
theorem subschema_of_resolveType (h : located (resolveType parent prop loc d) = .error loc') :
    Subschema loc d loc' := by
  -- an object schema passes over to its properties, which are two levels below it
  induction hn : sizeOf d using Nat.strongRecOn generalizing parent prop loc d with
  | ind n ih =>
    subst hn
    cases hobject : d.asObject? with
    | none =>
      rw [located_resolveType_of_not_object hobject] at h
      cases h
      exact .here
    | some members =>
      cases Document.eq_obj_of_asObject? hobject
      rw [located_resolveType] at h
      split at h
      next =>
        cases h
        exact .here
      next =>
        split at h
        next =>
          cases h
          exact .here
        next =>
          split at h
          next =>
            rcases located_flattenObject_cases (located_eq_error_of_map h) with rfl | ⟨m, hm, h⟩
            · exact .here
            · have hsize := sizeOf_lt_of_mem_properties hm
              exact .property hm (ih _ (by simp; omega) h rfl)
          next =>
            split at h
            next =>
              split at h
              next items _ hitems =>
                have hsize := sizeOf_get? hitems
                exact .items hitems (ih _ (by simp; omega) (located_eq_error_of_map h) rfl)
              next =>
                cases h
                exact .here
            next =>
              split at h
              next => cases h
              next =>
                cases h
                exact .here

/-- The error of an object schema is at the schema or at one inside of it. -/
theorem subschema_of_flattenObject {e : FlattenError}
    (h : flattenObject name loc members = .error e) :
    Subschema loc (.obj members) e.location := by
  have hl : located (flattenObject name loc members) = .error e.location := by
    rw [h, located_error]
  rcases located_flattenObject_cases hl with heq | ⟨m, hm, hm'⟩
  · rw [heq]
    exact .here
  · exact .property hm (subschema_of_resolveType hm')

end SchemaLoom
