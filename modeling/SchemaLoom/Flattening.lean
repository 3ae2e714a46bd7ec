import SchemaLoom.Document.Text
import SchemaLoom.Struct
import SchemaLoom.Walk

/-!
# Structs of schemas

Every named object schema of a document becomes a struct, and so does every object schema nested in
one; a nested struct is named after its parent and the property that holds it.

- `flatten`: the structs of some documents, and the schemas that have none.
- `flattenObject`: the structs of one object schema, the nested ones first.
- `FlattenCause`: why a schema has no C type.

A schema without a C type costs its whole entry, and no other entry.
-/

namespace SchemaLoom

/-- Why a schema has no C type. -/
inductive FlattenCause where
  | reference
  | combinator (keyword : String)
  | notAnObject (schema : Document)
  | unknownFormat (type format : String)
  | unboundedString
  | nullType
  | unknownType (type : String)
  | unsupportedType (type : Document)
  | untyped
  | unboundedArray
  | crossedBounds (min max : Nat)
  | noItems
  | badBound (keyword : String) (value : Document)
deriving Repr

def FlattenCause.message : FlattenCause → String
  | .reference => "$ref is not supported"
  | .combinator keyword => keyword ++ " is not supported"
  | .notAnObject schema => "expected a schema object, got " ++ schema.text
  | .unknownFormat type format => type ++ " without recognized format: \"" ++ format ++ "\""
  | .unboundedString => "string without maxLength"
  | .nullType => "null type is not supported"
  | .unknownType type => "unknown schema type: " ++ type
  | .unsupportedType type => "unsupported schema type: " ++ type.text
  | .untyped => "schema without type"
  | .unboundedArray => "array without maxItems"
  | .crossedBounds min max =>
    "minItems " ++ toString min ++ " exceeds maxItems " ++ toString max
  | .noItems => "array without items"
  | .badBound keyword value =>
    keyword ++ " must be a non-negative integer, got " ++ value.text

/-- A schema that has no C type, and where it is. -/
structure FlattenError where
  location : Location
  cause : FlattenCause
deriving Repr

namespace FlattenError

/-- The location and the cause on one line. -/
def message (e : FlattenError) : String :=
  e.location.toPointer ++ ": " ++ e.cause.message

def document (e : FlattenError) : Document :=
  .obj [("location", .str e.location.toPointer), ("message", .str e.cause.message)]

end FlattenError

/-- The structs of some documents, a struct after those it refers to, and the errors. -/
structure Flattened where
  structs : List Struct
  errors : List FlattenError
deriving Repr

namespace Flattened

def isOk (f : Flattened) : Bool := f.errors.isEmpty

def document (f : Flattened) : Document :=
  .obj [("structs", .arr (f.structs.map Struct.document)),
    ("errors", .arr (f.errors.map FlattenError.document))]

def append (a b : Flattened) : Flattened :=
  ⟨a.structs ++ b.structs, a.errors ++ b.errors⟩

end Flattened

namespace Schema

/-- The keywords that combine schemas. -/
def combinators : List String := ["allOf", "anyOf", "oneOf"]

/-- What makes a schema unfit for a struct, whatever its type. -/
def unsupported? (schema : Members) : Option FlattenCause :=
  if Members.contains "$ref" schema then some .reference
  else (combinators.find? fun k => Members.contains k schema).map .combinator

/-- The C type of a number format. -/
def numberType? (format : String) : Option String :=
  if format = "uint8" then some "uint8_t"
  else if format = "int8" then some "int8_t"
  else if format = "uint16" then some "uint16_t"
  else if format = "int16" then some "int16_t"
  else if format = "uint32" then some "uint32_t"
  else if format = "int32" then some "int32_t"
  else if format = "uint64" then some "uint64_t"
  else if format = "int64" then some "int64_t"
  else if format = "float" then some "float"
  else if format = "double" then some "double"
  else none

/-- The value of a keyword that bounds a count, if the schema has it. -/
def bound? (schema : Members) (keyword : String) : Except FlattenCause (Option Nat) :=
  match Members.get? keyword schema with
  | none => .ok none
  | some value =>
    match value.asNat? with
    | some n => .ok (some n)
    | none => .error (.badBound keyword value)

/-- The strings of an array under a keyword. -/
def strings (schema : Members) (keyword : String) : List String :=
  match Members.get? keyword schema with
  | some (.arr items) => items.filterMap Document.asString?
  | _ => []

/-- The text under a keyword, if it is a string. -/
def string? (schema : Members) (keyword : String) : Option String :=
  (Members.get? keyword schema).bind Document.asString?

/-- The C type of a number schema. -/
def number (type : String) (schema : Members) : Except FlattenCause CType :=
  let format := (string? schema "format").getD ""
  match numberType? format with
  | some name => .ok (.plain name)
  | none => .error (.unknownFormat type format)

/-- The C type of a string schema: bytes, as many as the longest string has. -/
def bytes (schema : Members) : Except FlattenCause CType :=
  match bound? schema "maxLength" with
  | .error cause => .error cause
  | .ok none => .error .unboundedString
  | .ok (some len) => .ok ⟨"uint8_t", [.fixed len]⟩

/-- The dimension that the bounds of an array schema give. -/
def dim (schema : Members) : Except FlattenCause Dim :=
  match bound? schema "maxItems" with
  | .error cause => .error cause
  | .ok none => .error .unboundedArray
  | .ok (some max) =>
    match bound? schema "minItems" with
    | .error cause => .error cause
    | .ok min =>
      if max < min.getD 0 then .error (.crossedBounds (min.getD 0) max)
      else .ok ⟨min.getD 0, max⟩

/-- A value under a key is smaller than the object. -/
theorem sizeOf_get? {key : String} {members : Members} {d : Document}
    (h : Members.get? key members = some d) : sizeOf d < sizeOf members := by
  induction members with
  | nil => simp at h
  | cons m ms ih =>
    obtain ⟨k, v⟩ := m
    rw [Members.get?_cons] at h
    split at h
    · cases h
      simp
      omega
    · have := ih h
      simp
      omega

/-- The members of an object under a key are smaller than the object that holds it. -/
theorem sizeOf_get?_obj {key : String} {members inner : Members}
    (h : Members.get? key members = some (.obj inner)) : sizeOf inner < sizeOf members := by
  have := sizeOf_get? h
  simp at this
  omega

end Schema

/-- The name of the struct of a property. -/
def nestedName (parent prop : String) : String :=
  parent ++ "_" ++ prop

open Schema in
mutual

/-- The C type of a property's schema, with the structs it needs. -/
def resolveType (parent prop : String) (loc : Location) (schema : Document) :
    Except FlattenError (CType × List Struct) :=
  match schema with
  | .obj members =>
    match unsupported? members with
    | some cause => .error ⟨loc, cause⟩
    | none =>
      match Members.get? "type" members with
      | some (.str type) =>
        if type = "object" then
          match flattenObject (nestedName parent prop) loc members with
          | .error e => .error e
          | .ok structs => .ok (.plain (nestedName parent prop), structs)
        else if type = "array" then
          match dim members with
          | .error cause => .error ⟨loc, cause⟩
          | .ok d =>
            match h : Members.get? "items" members with
            | none => .error ⟨loc, .noItems⟩
            | some items =>
              have := sizeOf_get? h
              match resolveType parent prop (loc.push "items") items with
              | .error e => .error e
              | .ok (inner, structs) => .ok (⟨inner.name, d :: inner.dims⟩, structs)
        else if type = "number" ∨ type = "integer" then
          match number type members with
          | .error cause => .error ⟨loc, cause⟩
          | .ok t => .ok (t, [])
        else if type = "string" then
          match bytes members with
          | .error cause => .error ⟨loc, cause⟩
          | .ok t => .ok (t, [])
        else if type = "bool" ∨ type = "boolean" then .ok (.plain "bool", [])
        else if type = "null" then .error ⟨loc, .nullType⟩
        else .error ⟨loc, .unknownType type⟩
      | some other => .error ⟨loc, .unsupportedType other⟩
      | none => .error ⟨loc, .untyped⟩
  | other => .error ⟨loc, .notAnObject other⟩
termination_by (sizeOf schema, 0)

/-- The structs of an object schema: those of its properties, and then its own. -/
def flattenObject (name : String) (loc : Location) (schema : Members) :
    Except FlattenError (List Struct) :=
  match unsupported? schema with
  | some cause => .error ⟨loc, cause⟩
  | none =>
    match h : Members.get? "properties" schema with
    | some (.obj properties) =>
      have := sizeOf_get?_obj h
      match flattenFields name (strings schema "required") (loc.push "properties") properties with
      | .error e => .error e
      | .ok (fields, structs) => .ok (structs ++ [⟨.plain name, loc, fields⟩])
    | _ => .ok [⟨.plain name, loc, []⟩]
termination_by (sizeOf schema, 0)

/-- The fields of properties, with the structs they need. -/
def flattenFields (name : String) (required : List String) (base : Location)
    (properties : List (String × Document)) :
    Except FlattenError (List Field × List Struct) :=
  match properties with
  | [] => .ok ([], [])
  | (prop, schema) :: rest =>
    match resolveType name prop (base.push prop) schema with
    | .error e => .error e
    | .ok (t, structs) =>
      match flattenFields name required base rest with
      | .error e => .error e
      | .ok (fields, more) =>
        .ok (⟨prop, .single t, required.contains prop⟩ :: fields, structs ++ more)
termination_by (sizeOf properties, 1)

end

/-- Whether a value is an object schema, which is what a struct describes. -/
def isObjectSchema : Document → Bool
  | .obj members => Schema.string? members "type" == some "object"
  | _ => false

/-- The structs of a named entry point; anything but an object schema has none. -/
def flattenEntry (step : Step) : Except FlattenError (List Struct) :=
  match step.value with
  | .obj members =>
    if isObjectSchema step.value then
      flattenObject (step.location.last?.getD "unknown") step.location members
    else .ok []
  | _ => .ok []

/-- The structs or the error of a named entry point. -/
def Flattened.ofEntry (step : Step) : Flattened :=
  match flattenEntry step with
  | .ok structs => ⟨structs, []⟩
  | .error e => ⟨[], [e]⟩

/-- The structs of every named object schema of some documents. -/
def flatten (g : Grammar) (trees : List Document) : Flattened :=
  ((walk g trees).filter fun step => step.kind == .schemaEnter).foldl
    (fun acc step => acc.append (.ofEntry step)) ⟨[], []⟩

end SchemaLoom
