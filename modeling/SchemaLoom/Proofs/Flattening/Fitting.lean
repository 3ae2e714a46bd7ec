import SchemaLoom.Proofs.Flattening.Nesting

/-!
# Schemas that fit

Flattening goes through an object schema without an error exactly if the schema, all its properties
and the items of all arrays on the way fit: none has an unsupported keyword, arrays and strings are
bounded, and numbers have a format with a C type.

- `HasBounds`: the bounds that an array schema asks for.
- `toOption_dim_eq_some_iff`, `scalarType?_eq_some_iff`: when the schema of an array and that of a
  scalar have a type, and which.
- `Fits`: a schema that has a type.
- `exists_flattenObject_eq_ok_iff`: an object schema has structs exactly if it fits.
-/

namespace SchemaLoom

open Schema

variable {loc base : Location} {d : Document} {members : Members} {name parent prop : String}
variable {structs : List Struct} {t : CType}

/-! ## Bounds -/

/-- The count under a keyword, if it is one. -/
def Schema.count? (keyword : String) (members : Members) : Option Nat :=
  (Members.get? keyword members).bind Document.asNat?

/-- An array schema has some number of items at most, and some number, or none, at least. -/
structure HasBounds (members : Members) (bounds : Dim) : Prop where
  min : count? "minItems" members = some bounds.min ∨
    Members.get? "minItems" members = none ∧ bounds.min = 0
  max : count? "maxItems" members = some bounds.max
  le : bounds.min ≤ bounds.max

/-- A bound is read as the count that it is, or as none if there is no such keyword. -/
theorem toOption_bound?_eq_some_iff {keyword : String} {bound : Option Nat} :
    (bound? members keyword).toOption = some bound ↔
      count? keyword members = bound ∧
        (bound = none → Members.get? keyword members = none) := by
  unfold bound? count?
  cases hget : Members.get? keyword members with
  | none =>
    constructor
    · intro h
      cases h
      exact ⟨rfl, fun _ => rfl⟩
    · rintro ⟨rfl, -⟩
      rfl
  | some value =>
    dsimp only [Option.bind_some]
    cases hcount : value.asNat? with
    | none =>
      constructor
      · intro h
        cases h
      · rintro ⟨rfl, hnone⟩
        cases hnone rfl
    | some n =>
      constructor
      · intro h
        cases h
        exact ⟨rfl, fun hnone => nomatch hnone⟩
      · rintro ⟨rfl, -⟩
        rfl

theorem toOption_bound?_join_eq_some_iff {keyword : String} {n : Nat} :
    (bound? members keyword).toOption.join = some n ↔ count? keyword members = some n := by
  rw [Option.join_eq_some_iff, toOption_bound?_eq_some_iff]
  exact and_iff_left fun hnone => nomatch hnone

theorem toOption_dim_eq_some_iff {bounds : Dim} :
    (dim members).toOption = some bounds ↔ HasBounds members bounds := by
  rw [toOption_dim, Option.bind_eq_some_iff]
  constructor
  · rintro ⟨max, hmax, h⟩
    obtain ⟨min, hmin, h⟩ := Option.bind_eq_some_iff.1 h
    obtain ⟨hcount, hnone⟩ := toOption_bound?_eq_some_iff.1 hmin
    split at h
    next => cases h
    next hle =>
      cases h
      refine ⟨?_, toOption_bound?_join_eq_some_iff.1 hmax, Nat.le_of_not_lt hle⟩
      cases min with
      | none => exact .inr ⟨hnone rfl, rfl⟩
      | some min => exact .inl hcount
  · rintro ⟨hmin, hmax, hle⟩
    have hread : ∃ min : Option Nat, (bound? members "minItems").toOption = some min ∧
        min.getD 0 = bounds.min := by
      rcases hmin with hcount | ⟨hnone, hzero⟩
      · exact ⟨some bounds.min, toOption_bound?_eq_some_iff.2 ⟨hcount, fun h => nomatch h⟩, rfl⟩
      · refine ⟨none, toOption_bound?_eq_some_iff.2 ⟨?_, fun _ => hnone⟩, hzero.symm⟩
        rw [count?, hnone, Option.bind_none]
    obtain ⟨min, hread, hvalue⟩ := hread
    refine ⟨bounds.max, toOption_bound?_join_eq_some_iff.2 hmax, ?_⟩
    rw [hread, Option.bind_some, hvalue, if_neg (Nat.not_lt_of_le hle)]

/-! ## Scalars -/

/-- The types of scalars: a number with a format, bytes for a string, and a boolean. -/
theorem scalarType?_eq_some_iff {type : String} : scalarType? type members = some t ↔
    (type = "number" ∨ type = "integer") ∧
        (∃ name, numberType? ((string? members "format").getD "") = some name ∧ t = .plain name) ∨
      type = "string" ∧
        (∃ length, count? "maxLength" members = some length ∧ t = ⟨"uint8_t", [.fixed length]⟩) ∨
      (type = "bool" ∨ type = "boolean") ∧ t = .plain "bool" := by
  unfold scalarType?
  by_cases hnumber : type = "number" ∨ type = "integer"
  · rw [if_pos hnumber, toOption_number, Option.map_eq_some_iff]
    constructor
    · rintro ⟨name, hformat, rfl⟩
      exact .inl ⟨hnumber, name, hformat, rfl⟩
    · rintro (⟨-, name, hformat, rfl⟩ | ⟨rfl, -⟩ | ⟨rfl | rfl, -⟩)
      · exact ⟨name, hformat, rfl⟩
      all_goals exact absurd hnumber (by decide)
  rw [if_neg hnumber]
  by_cases hstring : type = "string"
  · rw [if_pos hstring, toOption_bytes, Option.map_eq_some_iff]
    constructor
    · rintro ⟨length, hlength, rfl⟩
      exact .inr (.inl ⟨hstring, length, toOption_bound?_join_eq_some_iff.1 hlength, rfl⟩)
    · rintro (⟨h, -⟩ | ⟨-, length, hlength, rfl⟩ | ⟨rfl | rfl, -⟩)
      · exact absurd h hnumber
      · exact ⟨length, toOption_bound?_join_eq_some_iff.2 hlength, rfl⟩
      all_goals exact absurd hstring (by decide)
  rw [if_neg hstring]
  by_cases hbool : type = "bool" ∨ type = "boolean"
  · rw [if_pos hbool]
    constructor
    · intro h
      cases h
      exact .inr (.inr ⟨hbool, rfl⟩)
    · rintro (⟨h, -⟩ | ⟨h, -⟩ | ⟨-, rfl⟩)
      · exact absurd h hnumber
      · exact absurd h hstring
      · rfl
  · rw [if_neg hbool]
    constructor
    · intro h
      cases h
    · rintro (⟨h, -⟩ | ⟨h, -⟩ | ⟨h, -⟩)
      · exact absurd h hnumber
      · exact absurd h hstring
      · exact absurd h hbool

/-! ## Schemas that fit -/

/-- A schema that flattening has a type for. -/
inductive Fits : Document → Prop where
  | object {members : Members} (hsupported : Supported members)
      (h : string? members "type" = some "object")
      (hproperties : ∀ m ∈ properties members, Fits m.2) : Fits (.obj members)
  | array {members : Members} {items : Document} {bounds : Dim}
      (hsupported : Supported members) (h : string? members "type" = some "array")
      (hbounds : HasBounds members bounds) (hitems : Members.get? "items" members = some items)
      (hin : Fits items) : Fits (.obj members)
  | string {members : Members} {length : Nat} (hsupported : Supported members)
      (h : string? members "type" = some "string")
      (hlength : count? "maxLength" members = some length) : Fits (.obj members)
  | number {members : Members} {type name : String} (hsupported : Supported members)
      (h : string? members "type" = some type) (hnumber : type = "number" ∨ type = "integer")
      (hformat : numberType? ((string? members "format").getD "") = some name) :
      Fits (.obj members)
  | bool {members : Members} {type : String} (hsupported : Supported members)
      (h : string? members "type" = some type) (hbool : type = "bool" ∨ type = "boolean") :
      Fits (.obj members)

/-- A schema that has a type fits, if the object schema that it comes down to does. -/
theorem Resolved.fits (h : Resolved parent prop loc d t structs)
    (hobject : ∀ loc' inner, Reaches loc d loc' inner → Fits (.obj inner)) : Fits d := by
  induction h with
  | object h => exact hobject _ _ (.object h)
  | array hsupported h hdim hitems _ ih =>
    have hin := ih fun loc' inner hr => hobject loc' inner (.items h hitems hr)
    exact .array (unsupported?_eq_none_iff.1 hsupported) h (toOption_dim_eq_some_iff.1 hdim) hitems
      hin
  | scalar hsupported h _ _ hscalar =>
    rcases scalarType?_eq_some_iff.1 hscalar with ⟨hnumber, name, hformat, -⟩ |
      ⟨rfl, length, hlength, -⟩ | ⟨hbool, -⟩
    · exact .number (unsupported?_eq_none_iff.1 hsupported) h hnumber hformat
    · exact .string (unsupported?_eq_none_iff.1 hsupported) h hlength
    · exact .bool (unsupported?_eq_none_iff.1 hsupported) h hbool

/-- An object schema that has structs fits. -/
theorem fits_of_flattenObject (hobject : string? members "type" = some "object")
    (h : flattenObject name loc members = .ok structs) : Fits (.obj members) := by
  -- an object schema that a property comes down to is smaller
  induction hn : sizeOf members using Nat.strongRecOn generalizing name loc members structs with
  | ind n ih =>
    subst hn
    obtain ⟨hsupported, ps, hps, hresolved, -⟩ := flattenObject_cases h
    refine .object (unsupported?_eq_none_iff.1 hsupported) hobject fun m hm => ?_
    rw [← hps] at hm
    obtain ⟨p, hp, rfl⟩ := List.mem_map.1 hm
    refine Resolved.fits (hresolved p hp) fun loc' inner hreach => ?_
    have hmem : p.member ∈ properties members := hps ▸ List.mem_map_of_mem hp
    have hsize : sizeOf inner < sizeOf members :=
      Nat.lt_trans hreach.sizeOf_lt (sizeOf_lt_of_mem_properties hmem)
    exact ih _ hsize hreach.isObject (Resolved.of_reaches (hresolved p hp) hreach).2 rfl

/-- The fields of properties are made if each has a type. -/
theorem exists_flattenFields_eq_ok {required : List String} {properties : Members}
    (h : ∀ m ∈ properties, ∃ r, located (resolveType name m.1 (base.push m.1) m.2) = .ok r) :
    ∃ r, located (flattenFields name required base properties) = .ok r := by
  induction properties with
  | nil => exact ⟨_, located_flattenFields_nil⟩
  | cons m rest ih =>
    obtain ⟨⟨r, hr⟩, hrest⟩ := List.forall_mem_cons.1 h
    obtain ⟨more, hmore⟩ := ih hrest
    rw [located_flattenFields_cons, hr, hmore]
    exact ⟨_, rfl⟩

/-- An object schema has structs if its properties have types. -/
theorem exists_flattenObject_eq_ok (hsupported : Supported members)
    (h : ∀ m ∈ properties members, ∀ parent prop loc,
      ∃ r, located (resolveType parent prop loc m.2) = .ok r) (name : String) (loc : Location) :
    ∃ structs, located (flattenObject name loc members) = .ok structs := by
  rw [located_flattenObject, unsupported?_eq_none_iff.2 hsupported]
  unfold properties at h
  cases hfound : (Members.get? "properties" members).bind Document.asObject? with
  | none => exact ⟨_, rfl⟩
  | some found =>
    rw [hfound] at h
    have hfields : ∃ r, located (flattenFields name (strings members "required")
        (loc.push "properties") found) = .ok r :=
      exists_flattenFields_eq_ok fun m hm => h m hm name m.1 _
    obtain ⟨r, hr⟩ := hfields
    exact ⟨_, congrArg (Except.map _) hr⟩

theorem located_resolveType_of_scalar {type : String} (hsupported : Supported members)
    (h : string? members "type" = some type) (hobject : type ≠ "object") (harray : type ≠ "array")
    (hscalar : scalarType? type members = some t) :
    located (resolveType parent prop loc (.obj members)) = .ok (t, []) := by
  rw [located_resolveType, unsupported?_eq_none_iff.2 hsupported, h]
  dsimp only [Option.isSome_none]
  rw [if_neg Bool.false_ne_true, if_neg hobject, if_neg harray, hscalar]

/-- A schema that fits has a type, whatever it is named after and wherever it is. -/
theorem exists_resolveType_eq_ok (h : Fits d) (parent prop : String) (loc : Location) :
    ∃ r, located (resolveType parent prop loc d) = .ok r := by
  induction h generalizing parent prop loc with
  | object hsupported h _ ih =>
    obtain ⟨structs, hstructs⟩ :=
      exists_flattenObject_eq_ok hsupported ih (nestedName parent prop) loc
    rw [located_resolveType, unsupported?_eq_none_iff.2 hsupported, h]
    exact ⟨_, congrArg (Except.map _) hstructs⟩
  | array hsupported h hbounds hitems _ ih =>
    obtain ⟨r, hr⟩ := ih parent prop (loc.push "items")
    rw [located_resolveType, unsupported?_eq_none_iff.2 hsupported, h,
      toOption_dim_eq_some_iff.2 hbounds, hitems]
    exact ⟨_, congrArg (Except.map _) hr⟩
  | string hsupported h hlength =>
    have hscalar := scalarType?_eq_some_iff.2 (.inr (.inl ⟨rfl, _, hlength, rfl⟩))
    exact ⟨_, located_resolveType_of_scalar hsupported h (by decide) (by decide) hscalar⟩
  | number hsupported h hnumber hformat =>
    have hscalar := scalarType?_eq_some_iff.2 (.inl ⟨hnumber, _, hformat, rfl⟩)
    refine ⟨_, located_resolveType_of_scalar hsupported h ?_ ?_ hscalar⟩
    all_goals
      rintro rfl
      exact absurd hnumber (by decide)
  | @bool members type hsupported h hbool =>
    have hscalar : scalarType? type members = some (.plain "bool") :=
      scalarType?_eq_some_iff.2 (.inr (.inr ⟨hbool, rfl⟩))
    refine ⟨_, located_resolveType_of_scalar hsupported h ?_ ?_ hscalar⟩
    all_goals
      rintro rfl
      exact absurd hbool (by decide)

/-- An object schema has structs exactly if it fits. -/
theorem exists_flattenObject_eq_ok_iff (hobject : string? members "type" = some "object") :
    (∃ structs, flattenObject name loc members = .ok structs) ↔ Fits (.obj members) := by
  constructor
  · rintro ⟨structs, h⟩
    exact fits_of_flattenObject hobject h
  · intro h
    cases h with
    | object hsupported _ hproperties =>
      obtain ⟨structs, hstructs⟩ := exists_flattenObject_eq_ok hsupported
        (fun m hm => exists_resolveType_eq_ok (hproperties m hm)) name loc
      exact ⟨structs, located_eq_ok_iff.1 hstructs⟩
    | array _ h | string _ h =>
      rw [hobject] at h
      exact absurd (Option.some.inj h) (by decide)
    | number _ h hscalar | bool _ h hscalar =>
      rw [hobject] at h
      cases h
      exact absurd hscalar (by decide)

end SchemaLoom
