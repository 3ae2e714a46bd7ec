import Mathlib.Data.List.Pairwise
import SchemaLoom.Proofs.Flattening.Places

/-!
# Named schemas with unsupported keywords

An object schema with a reference or a combinator has one error, at its place.  A named schema that
is no object schema is passed over before its keywords are looked at, so it has no error: such a
schema has no struct and nothing says so.

- `Flattened.errorsAt`: the errors at one place.
- `within_flatten_of_not_isObjectSchema`: a named schema that is no object schema gives nothing.
- `flatten_unsupported`: a named schema with an unsupported keyword has one error at its place
  exactly if it is an object schema.
- `flatten_drops_alias`: a named schema that is a reference has none.
-/

namespace SchemaLoom

open Schema

variable {g : Grammar} {loc place : Location} {d : Document} {members : Members} {name : String}
variable {step : Step} {cause : FlattenCause}

/-- The errors at a place. -/
def Flattened.errorsAt (place : Location) (f : Flattened) : List FlattenError :=
  f.errors.filter fun e => e.location = place

/-- The errors at a place are among those at the place or below it. -/
theorem Flattened.errorsAt_within (place : Location) (f : Flattened) :
    (f.within place).errorsAt place = f.errorsAt place := by
  unfold errorsAt within restrict
  rw [List.filter_filter]
  refine List.filter_congr fun e _ => ?_
  by_cases h : e.location = place
  · rw [h, decide_eq_true rfl, Bool.true_and]
    exact decide_eq_true (Location.Within.refl place)
  · rw [decide_eq_false h, Bool.false_and]

theorem flattenObject_of_unsupported (h : unsupported? members = some cause) :
    flattenObject name loc members = .error ⟨loc, cause⟩ := by
  rw [flattenObject, h]

/-- An object schema with an unsupported keyword gives one error, at its place. -/
theorem ofEntry_of_unsupported (hobject : isObjectSchema step.value = true)
    (hvalue : step.value = .obj members) (h : unsupported? members = some cause) :
    Flattened.ofEntry step = ⟨[], [⟨step.location, cause⟩]⟩ := by
  obtain ⟨members', hvalue', -, hentry⟩ := flattenEntry_of_isObjectSchema hobject
  rw [hvalue] at hvalue'
  cases hvalue'
  rw [Flattened.ofEntry, hentry, flattenObject_of_unsupported h]

/-- Nothing is at the place of a named schema that is an object but no object schema, nor below it:
no named object schema is above it. -/
theorem within_flatten_of_not_isObjectSchema (hg : g.BuiltIn) (hd : d.Distinct)
    (hstep : step ∈ walk g [d]) (hkind : step.kind = .schemaEnter)
    (hvalue : step.value = .obj members) (hobject : ¬ isObjectSchema step.value = true) :
    (flatten g [d]).within step.location = .concat [] := by
  have hapart : ∀ other ∈ namedObjects g d, other.location.Apart step.location := by
    intro other hother
    obtain ⟨hmem, hkind', hobject'⟩ := mem_namedObjects_iff.1 hother
    obtain ⟨members', hvalue', -⟩ := isObjectSchema_iff.1 hobject'
    have hne : other ≠ step := by
      rintro rfl
      exact hobject hobject'
    have : Std.Symm fun a b : Step => a.location.Apart b.location := ⟨fun _ _ h => h.symm⟩
    exact (pairwise_named hg hd).forall (mem_named hmem hkind' hvalue')
      (mem_named hstep hkind hvalue) hne
  rw [flatten_singleton]
  exact within_concat_of_apart (fun _ h => (mem_namedObjects_iff.1 h).2.2) hapart

/-- A named schema with an unsupported keyword has one error at its place exactly if it is an object
schema.  Then this is all that is at its place or below it, and otherwise nothing is. -/
theorem flatten_unsupported (hg : g.BuiltIn) (hd : d.Distinct) (hstep : step ∈ walk g [d])
    (hkind : step.kind = .schemaEnter) (hvalue : step.value = .obj members) {keyword : String}
    (hkeyword : keyword ∈ ["$ref", "allOf", "anyOf", "oneOf"])
    (hcontains : Members.contains keyword members = true) :
    ((∃ e, (flatten g [d]).errorsAt step.location = [e]) ↔
      string? members "type" = some "object") ∧
    (string? members "type" = some "object" → ∃ cause, unsupported? members = some cause ∧
      (flatten g [d]).within step.location = ⟨[], [⟨step.location, cause⟩]⟩) ∧
    (string? members "type" ≠ some "object" →
      (flatten g [d]).within step.location = ⟨[], []⟩) := by
  have hunsupported : ∃ cause, unsupported? members = some cause := by
    refine Option.ne_none_iff_exists'.1 fun hnone => ?_
    rw [unsupported?_eq_none_iff.1 hnone keyword hkeyword] at hcontains
    cases hcontains
  obtain ⟨cause, hcause⟩ := hunsupported
  have htyped : isObjectSchema step.value = true ↔ string? members "type" = some "object" := by
    rw [hvalue, isObjectSchema, beq_iff_eq]
  have hobject : string? members "type" = some "object" →
      (flatten g [d]).within step.location = ⟨[], [⟨step.location, cause⟩]⟩ := by
    intro htype
    have hmem := mem_namedObjects_iff.2 ⟨hstep, hkind, htyped.2 htype⟩
    rw [within_flatten hg hd hmem]
    exact ofEntry_of_unsupported (htyped.2 htype) hvalue hcause
  have hother : string? members "type" ≠ some "object" →
      (flatten g [d]).within step.location = ⟨[], []⟩ := fun htype =>
    within_flatten_of_not_isObjectSchema hg hd hstep hkind hvalue (mt htyped.1 htype)
  refine ⟨⟨?_, fun htype => ?_⟩, fun htype => ⟨cause, hcause, hobject htype⟩, hother⟩
  · rintro ⟨e, he⟩
    by_contra htype
    rw [← Flattened.errorsAt_within, hother htype] at he
    cases he
  · refine ⟨⟨step.location, cause⟩, ?_⟩
    rw [← Flattened.errorsAt_within, hobject htype]
    exact List.filter_cons_of_pos (decide_eq_true rfl)

/-- A document with one named schema. -/
def petDocument (pet : Members) : Document :=
  .obj [("components", .obj [("schemas", .obj [("pet", .obj pet)])])]

/-- An object schema with a combinator has its error. -/
theorem flatten_unsupported_combinator :
    let pet : Members := [("type", .str "object"), ("allOf", .arr [])]
    let loc : Location := ⟨["components", "schemas", "pet"]⟩
    (Grammar.openApi.BuiltIn ∧ (petDocument pet).Distinct ∧
      ⟨.obj pet, .schemaEnter, loc⟩ ∈ walk .openApi [petDocument pet] ∧
      Members.contains "allOf" pet = true ∧ string? pet "type" = some "object") ∧
    ∃ e, (flatten .openApi [petDocument pet]).errorsAt loc = [e] := by
  intro pet loc
  have hg : Grammar.openApi.BuiltIn := .inl rfl
  have hd : (petDocument pet).Distinct := by decide
  have hnamed : ⟨.obj pet, .schemaEnter, loc⟩ ∈ namedObjects .openApi (petDocument pet) :=
    List.mem_cons_self
  have hstep := (mem_namedObjects_iff.1 hnamed).1
  have hkeyword : "allOf" ∈ ["$ref", "allOf", "anyOf", "oneOf"] := by decide
  have h := flatten_unsupported hg hd hstep rfl rfl hkeyword rfl
  exact ⟨⟨hg, hd, hstep, rfl, rfl⟩, h.1.2 rfl⟩

/-- A named schema that is a reference has no error, and no struct. -/
theorem flatten_drops_alias :
    let pet : Members := [("$ref", .str "#/components/schemas/animal")]
    let loc : Location := ⟨["components", "schemas", "pet"]⟩
    (Grammar.openApi.BuiltIn ∧ ⟨.obj pet, .schemaEnter, loc⟩ ∈ walk .openApi [petDocument pet] ∧
      Members.contains "$ref" pet = true) ∧
    flatten .openApi [petDocument pet] = ⟨[], []⟩ ∧
    ¬ ∃ e, (flatten .openApi [petDocument pet]).errorsAt loc = [e] := by
  intro pet loc
  have hflatten : flatten .openApi [petDocument pet] = ⟨[], []⟩ := rfl
  have hwalk : (walk .openApi [petDocument pet])[3]? =
      some ⟨.obj pet, .schemaEnter, loc⟩ := rfl
  refine ⟨⟨.inl rfl, List.mem_of_getElem? hwalk, rfl⟩, hflatten, ?_⟩
  · rintro ⟨e, he⟩
    rw [hflatten] at he
    cases he

end SchemaLoom
