import SchemaLoom.Flattening
import SchemaLoom.Proofs.Normalization.NormalForms

/-!
# Flattening normal forms of schemas

A schema and its normal form have the same structs, or an error at the same location.  The cause of
the error may differ: its message may quote a value, and the normal form holds another one.

- `located`: a result in which an error is known by its location alone.
- `located_resolveType`, `located_flattenObject`, `located_flattenFields_cons`: what a result
  depends on.
- `get?_normalizeMembers`, `string?_normalizeMembers`, `strings_normalizeMembers` and those next to
  them: what flattening reads of a schema is the same before and after a normalization.
- `FlattensAlike`: a schema whose type does not change when it is normalized; every schema is one
  (`flattensAlike`).
- `located_flattenObject_normalizeMembers`: the structs of an object schema.
-/

namespace SchemaLoom

variable {α : Type}

/-- A result in which an error is known by its location alone. -/
def located (r : Except FlattenError α) : Except Location α :=
  r.mapError FlattenError.location

@[simp] theorem located_ok (a : α) : located (.ok a) = .ok a := rfl

@[simp] theorem located_error (e : FlattenError) :
    located (.error e : Except FlattenError α) = .error e.location := rfl

namespace Schema

/-! ## What a result depends on -/

theorem toOption_bytes (members : Members) :
    (bytes members).toOption =
      (bound? members "maxLength").toOption.join.map fun len => ⟨"uint8_t", [.fixed len]⟩ := by
  rw [bytes]
  rcases bound? members "maxLength" with cause | (_ | len) <;> rfl

theorem toOption_dim (members : Members) :
    (dim members).toOption =
      (bound? members "maxItems").toOption.join.bind fun max =>
        (bound? members "minItems").toOption.bind fun min =>
          if max < min.getD 0 then none else some ⟨min.getD 0, max⟩ := by
  rw [dim]
  rcases bound? members "maxItems" with cause | (_ | max)
  · rfl
  · rfl
  · rcases bound? members "minItems" with cause | min
    · rfl
    · show Except.toOption (if _ then _ else _) = if max < min.getD 0 then none else _
      by_cases h : max < min.getD 0
      · rw [if_pos h, if_pos h]
        rfl
      · rw [if_neg h, if_neg h]
        rfl

/-- The C type of a schema that holds no other schema. -/
def scalarType? (type : String) (members : Members) : Option CType :=
  if type = "number" ∨ type = "integer" then (number type members).toOption
  else if type = "string" then (bytes members).toOption
  else if type = "bool" ∨ type = "boolean" then some (.plain "bool")
  else none

theorem toOption_number (type : String) (members : Members) :
    (number type members).toOption =
      (numberType? ((string? members "format").getD "")).map CType.plain := by
  unfold number
  dsimp only
  cases numberType? ((string? members "format").getD "") <;> rfl

end Schema

open Schema

section Results

variable {parent prop name : String} {loc base : Location} {required : List String}

/-- The type of an object's schema depends on few of its members: on the keywords that must not be
there, on its type, and on what the type asks for. -/
theorem located_resolveType (members : Members) :
    located (resolveType parent prop loc (.obj members)) =
      if (unsupported? members).isSome then .error loc
      else match string? members "type" with
        | none => .error loc
        | some type =>
          if type = "object" then
            (located (flattenObject (nestedName parent prop) loc members)).map
              fun structs => (.plain (nestedName parent prop), structs)
          else if type = "array" then
            match (dim members).toOption, Members.get? "items" members with
            | some d, some items =>
              (located (resolveType parent prop (loc.push "items") items)).map
                fun r => (⟨r.1.name, d :: r.1.dims⟩, r.2)
            | _, _ => .error loc
          else match scalarType? type members with
            | some t => .ok (t, [])
            | none => .error loc := by
  rw [resolveType]
  cases unsupported? members with
  | some cause => rfl
  | none =>
    unfold string?
    rcases Members.get? "type" members with _ | (_ | _ | _ | type | _ | _)
    case some.str =>
      dsimp only [Option.isSome_none, Option.bind_some, Document.asString?]
      rw [if_neg Bool.false_ne_true]
      by_cases hobject : type = "object"
      · rw [if_pos hobject, if_pos hobject]
        cases flattenObject (nestedName parent prop) loc members <;> rfl
      · rw [if_neg hobject, if_neg hobject]
        by_cases harray : type = "array"
        · rw [if_pos harray, if_pos harray]
          cases dim members with
          | error cause => rfl
          | ok d =>
            dsimp only
            -- the look-up of the items remembers its result, which the recursion needs
            split
            next h =>
              rw [h]
              rfl
            next items h =>
              rw [h]
              dsimp only [Except.toOption]
              cases resolveType parent prop (loc.push "items") items <;> rfl
        · rw [if_neg harray, if_neg harray]
          unfold scalarType?
          by_cases hnumber : type = "number" ∨ type = "integer"
          · rw [if_pos hnumber, if_pos hnumber]
            cases number type members <;> rfl
          · rw [if_neg hnumber, if_neg hnumber]
            by_cases hstring : type = "string"
            · rw [if_pos hstring, if_pos hstring]
              cases bytes members <;> rfl
            · rw [if_neg hstring, if_neg hstring]
              by_cases hbool : type = "bool" ∨ type = "boolean"
              · rw [if_pos hbool, if_pos hbool]
                rfl
              · rw [if_neg hbool, if_neg hbool]
                split <;> rfl
    all_goals rfl

/-- The structs of an object schema depend on its properties and on which of them are required. -/
theorem located_flattenObject (members : Members) :
    located (flattenObject name loc members) =
      if (unsupported? members).isSome then .error loc
      else match (Members.get? "properties" members).bind Document.asObject? with
        | none => .ok [⟨.plain name, loc, []⟩]
        | some properties =>
          (located (flattenFields name (strings members "required") (loc.push "properties")
            properties)).map fun r => r.2 ++ [⟨.plain name, loc, r.1⟩] := by
  rw [flattenObject]
  cases unsupported? members with
  | some cause => rfl
  | none =>
    dsimp only [Option.isSome_none]
    rw [if_neg Bool.false_ne_true]
    split
    next properties h =>
      rw [h]
      dsimp only [Option.bind_some, Document.asObject?]
      cases flattenFields name (strings members "required") (loc.push "properties") properties <;>
        rfl
    next h =>
      rcases hp : Members.get? "properties" members with _ | (_ | _ | _ | _ | _ | properties)
      case some.obj => exact absurd hp (h properties)
      all_goals rfl

theorem located_flattenFields_nil : located (flattenFields name required base []) = .ok ([], []) := by
  rw [flattenFields]
  rfl

theorem located_flattenFields_cons (schema : Document) (rest : Members) :
    located (flattenFields name required base ((prop, schema) :: rest)) =
      (located (resolveType name prop (base.push prop) schema)).bind fun r =>
        (located (flattenFields name required base rest)).map fun more =>
          (⟨prop, .single r.1, required.contains prop⟩ :: more.1, r.2 ++ more.2) := by
  rw [flattenFields]
  cases resolveType name prop (base.push prop) schema with
  | error e => rfl
  | ok r =>
    dsimp only
    cases flattenFields name required base rest <;> rfl

end Results

/-! ## What a normalization keeps -/

variable {g : Grammar} {scheme : Scheme} {node : NodeId} {t : Transition} {members : Members}
variable {key : String} {d : Document}

theorem asString?_normalizeAt : (normalizeAt g scheme t d).asString? = d.asString? := by
  cases d <;> rw [normalizeAt] <;> rfl

theorem asNat?_normalizeAt : (normalizeAt g scheme t d).asNat? = d.asNat? := by
  cases d <;> rw [normalizeAt] <;> rfl

theorem asObject?_normalizeAt :
    (normalizeAt g scheme t d).asObject? = d.asObject?.map (normalizeMembers g scheme t.node) := by
  cases d <;> rw [normalizeAt] <;> rfl

theorem normalizeMembers_cons (m : String × Document) (ms : Members) :
    normalizeMembers g scheme node (m :: ms) =
      (m.1, normalizeMember g scheme node m) :: normalizeMembers g scheme node ms := by
  rw [normalizeMembers]
  rfl

theorem get?_normalizeMembers (key : String) (members : Members) :
    Members.get? key (normalizeMembers g scheme node members) =
      (Members.get? key members).map fun v => normalizeMember g scheme node (key, v) := by
  have hmap : normalizeAt g scheme ⟨node, .default⟩ (.obj members) =
      .obj (members.map fun m => (m.1, normalizeMember g scheme node m)) := normalizeAt_obj members
  rw [normalizeAt, Document.obj.injEq] at hmap
  rw [hmap, Members.get?_map]

/-- A normalization neither adds nor removes a keyword. -/
theorem contains_normalizeMembers :
    Members.contains key (normalizeMembers g scheme node members) =
      Members.contains key members := by
  rw [Members.contains, get?_normalizeMembers, Option.isSome_map]
  rfl

theorem unsupported?_normalizeMembers :
    unsupported? (normalizeMembers g scheme node members) = unsupported? members := by
  unfold unsupported?
  rw [contains_normalizeMembers]
  congr 3
  funext k
  rw [contains_normalizeMembers]

/-- Only a reference is a string that a normalization may change. -/
theorem string?_normalizeMembers (hkey : key ≠ refKey) :
    string? (normalizeMembers g scheme node members) key = string? members key := by
  unfold string?
  rw [get?_normalizeMembers]
  cases Members.get? key members with
  | none => rfl
  | some v =>
    rw [Option.map_some, normalizeMember_of_ne hkey]
    exact asString?_normalizeAt

theorem toOption_bound?_normalizeMembers (hkey : key ≠ refKey) :
    (bound? (normalizeMembers g scheme node members) key).toOption =
      (bound? members key).toOption := by
  unfold bound?
  rw [get?_normalizeMembers]
  cases Members.get? key members with
  | none => rfl
  | some v =>
    rw [Option.map_some, normalizeMember_of_ne hkey]
    dsimp only
    rw [asNat?_normalizeAt]
    cases v.asNat? <;> rfl

/-- The strings of an array may change their order. -/
theorem strings_normalizeMembers (hkey : key ≠ refKey) :
    (strings (normalizeMembers g scheme node members) key).Perm (strings members key) := by
  unfold strings
  rw [get?_normalizeMembers]
  cases Members.get? key members with
  | none => exact .nil
  | some v =>
    rw [Option.map_some, normalizeMember_of_ne hkey]
    cases v with
    | arr items =>
      -- the items of a set are sorted, and a string among them is not rewritten
      rw [normalizeAt_arr]
      refine ((arrange_perm _ _).filterMap _).trans ?_
      rw [List.filterMap_map]
      refine .of_eq (List.filterMap_congr fun d _ => ?_)
      exact asString?_normalizeAt
    | null | bool | num | str | obj =>
      rw [normalizeAt]

theorem toOption_dim_normalizeMembers :
    (dim (normalizeMembers g scheme node members)).toOption = (dim members).toOption := by
  rw [toOption_dim, toOption_dim, toOption_bound?_normalizeMembers (by decide),
    toOption_bound?_normalizeMembers (by decide)]

theorem scalarType?_normalizeMembers (type : String) :
    scalarType? type (normalizeMembers g scheme node members) = scalarType? type members := by
  unfold scalarType?
  rw [toOption_number, toOption_number, toOption_bytes, toOption_bytes,
    string?_normalizeMembers (by decide), toOption_bound?_normalizeMembers (by decide)]

/-! ## Types and structs of normal forms -/

/-- The places that flattening passes through: a schema and the map of its properties. -/
structure Grammar.HoldsSchemas (g : Grammar) : Prop where
  schema : g.node JsonSchema.schema = .schema .schema JsonSchema.keywords JsonSchema.schema
  mapSchema : g.node JsonSchema.mapSchema = .map .mapSchema (.plain JsonSchema.schema)

/-- A schema has the same type, and needs the same structs, before and after a normalization. -/
def FlattensAlike (g : Grammar) (scheme : Scheme) (d : Document) : Prop :=
  ∀ parent prop loc,
    located (resolveType parent prop loc
        (normalizeAt g scheme (.plain JsonSchema.schema) d)) =
      located (resolveType parent prop loc d)

section Schemas

variable {parent prop name : String} {loc base : Location} {required required' : List String}
variable {kind : Kind}

theorem located_resolveType_of_not_object (hd : d.asObject? = none) :
    located (resolveType parent prop loc d) = .error loc := by
  cases d with
  | obj => cases hd
  | null | bool | num | str | arr =>
    rw [resolveType]
    · rfl
    · intro members h
      cases h

/-- The value of a property, which may be a reference if that is the property's name. -/
theorem located_resolveType_property (hg : g.HoldsSchemas) (hd : FlattensAlike g scheme d) :
    located (resolveType parent prop loc (normalizeMember g scheme JsonSchema.mapSchema (key, d))) =
      located (resolveType parent prop loc d) := by
  unfold normalizeMember
  split
  · -- a reference in the place of a schema is an error, whatever it refers to
    cases d with
    | str raw =>
      rw [located_resolveType_of_not_object rfl, located_resolveType_of_not_object rfl]
    | null | bool | num | arr | obj => rfl
  · have hchild : g.child JsonSchema.mapSchema key = .plain JsonSchema.schema := by
      rw [Grammar.child, hg.mapSchema]
      rfl
    rw [hchild]
    exact hd parent prop loc

theorem located_flattenFields_normalizeMembers (hg : g.HoldsSchemas)
    (hrequired : ∀ prop, required'.contains prop = required.contains prop)
    {properties : Members} (hp : ∀ m ∈ properties, FlattensAlike g scheme m.2) :
    located (flattenFields name required' base
        (normalizeMembers g scheme JsonSchema.mapSchema properties)) =
      located (flattenFields name required base properties) := by
  induction properties with
  | nil => rw [normalizeMembers, located_flattenFields_nil, located_flattenFields_nil]
  | cons m ms ih =>
    obtain ⟨prop, schema⟩ := m
    obtain ⟨hm, hms⟩ := List.forall_mem_cons.1 hp
    rw [normalizeMembers_cons, located_flattenFields_cons, located_flattenFields_cons,
      located_resolveType_property hg hm, ih hms, hrequired]

/-- An object schema has the same structs before and after a normalization. -/
theorem located_flattenObject_of_properties (hg : g.HoldsSchemas)
    (hnode : g.node node = .schema kind JsonSchema.keywords JsonSchema.schema)
    (hp : ∀ properties, Members.get? "properties" members = some (.obj properties) →
      ∀ m ∈ properties, FlattensAlike g scheme m.2) :
    located (flattenObject name loc (normalizeMembers g scheme node members)) =
      located (flattenObject name loc members) := by
  have hchild : g.child node "properties" = .plain JsonSchema.mapSchema := by
    rw [Grammar.child, hnode]
    rfl
  rw [located_flattenObject, located_flattenObject, unsupported?_normalizeMembers,
    get?_normalizeMembers]
  cases h : Members.get? "properties" members with
  | none => rfl
  | some v =>
    rw [Option.map_some, Option.bind_some, Option.bind_some,
      normalizeMember_of_ne (by decide), hchild, asObject?_normalizeAt]
    cases v with
    | null | bool | num | str | arr => rfl
    | obj properties =>
      have hrequired : ∀ prop,
          (strings (normalizeMembers g scheme node members) "required").contains prop =
            (strings members "required").contains prop := by
        intro prop
        rw [Bool.eq_iff_iff, List.contains_iff_mem, List.contains_iff_mem]
        exact (strings_normalizeMembers (by decide)).mem_iff
      dsimp only [Document.asObject?, Option.map_some, Transition.plain]
      rw [located_flattenFields_normalizeMembers hg hrequired (hp properties h)]

theorem flattensAlike_of_not_object (hd : d.asObject? = none) : FlattensAlike g scheme d := by
  intro parent prop loc
  have hd' : (normalizeAt g scheme (.plain JsonSchema.schema) d).asObject? = none := by
    rw [asObject?_normalizeAt, hd]
    rfl
  rw [located_resolveType_of_not_object hd, located_resolveType_of_not_object hd']

theorem flattensAlike_obj (hg : g.HoldsSchemas)
    (hitems : ∀ v, Members.get? "items" members = some v → FlattensAlike g scheme v)
    (hp : ∀ properties, Members.get? "properties" members = some (.obj properties) →
      ∀ m ∈ properties, FlattensAlike g scheme m.2) :
    FlattensAlike g scheme (.obj members) := by
  intro parent prop loc
  have hchild : g.child JsonSchema.schema "items" = .plain JsonSchema.schema := by
    rw [Grammar.child, hg.schema]
    rfl
  rw [normalizeAt, located_resolveType, located_resolveType, unsupported?_normalizeMembers,
    string?_normalizeMembers (by decide)]
  congr 1
  cases string? members "type" with
  | none => rfl
  | some type =>
    dsimp only [Transition.plain]
    rw [located_flattenObject_of_properties hg hg.schema hp, toOption_dim_normalizeMembers,
      scalarType?_normalizeMembers, get?_normalizeMembers]
    congr 2
    cases h : Members.get? "items" members with
    | none => rfl
    | some v =>
      rw [Option.map_some, normalizeMember_of_ne (by decide), hchild]
      cases (dim members).toOption with
      | none => rfl
      | some _ =>
        dsimp only
        rw [hitems v h]

/-- A schema has the same type before and after a normalization, and so has everything in it: what
flattening enters is a member's value, or a member's value of a member's value. -/
theorem flattensAlike (hg : g.HoldsSchemas) (d : Document) : FlattensAlike g scheme d := by
  have hall : FlattensAlike g scheme d ∧
      ∀ members, d = .obj members → ∀ m ∈ members, FlattensAlike g scheme m.2 := by
    induction d using Document.induction with
    | null | bool | num | str | arr =>
      exact ⟨flattensAlike_of_not_object rfl, fun _ h => nomatch h⟩
    | obj members ih =>
      refine ⟨flattensAlike_obj hg ?_ ?_, fun _ h m hm => ?_⟩
      · intro v hv
        exact (ih _ (Members.mem_of_get? hv)).1
      · intro properties hv m hm
        exact (ih _ (Members.mem_of_get? hv)).2 properties rfl m hm
      · cases h
        exact (ih m hm).1
  exact hall.1

theorem located_flattenObject_normalizeMembers (hg : g.HoldsSchemas)
    (hnode : g.node node = .schema kind JsonSchema.keywords JsonSchema.schema) :
    located (flattenObject name loc (normalizeMembers g scheme node members)) =
      located (flattenObject name loc members) :=
  located_flattenObject_of_properties hg hnode fun _ _ m _ => flattensAlike hg m.2

end Schemas

end SchemaLoom
