import SchemaLoom.Document.Text
import SchemaLoom.Location

/-!
# Validation

Documents are checked against schemas made of the keywords `type`, `required`, `properties` and
`items`; other keywords say nothing.  All violations are collected, in the order of the keywords in
the schema and depth first.

A schema must be sound before anything is checked against it: it is a boolean or an object, and the
values of its keywords have their forms.  Only its first flaw is told.

- `validate`: the violations of a schema by a document, or the flaw of the schema.
- `violations`: the violations alone.
- `flaw?`: the flaw of a schema.
- `configSchema`, `validateConfig`: the schema of workspace configurations.

## What is left out

The keywords other than these four, references between schemas and the versions of JSON Schema.  The
schema of configurations uses none of them.
-/

namespace SchemaLoom

/-- How a document violates a schema at one place, or a schema the form of schemas. -/
inductive Violation where
  /-- The value has none of the types. -/
  | wrongType (value : Document) (types : List String)
  /-- The object lacks a key. -/
  | missingKey (key : String)
  /-- No value is allowed there. -/
  | refused (value : Document)
  /-- The value is neither the name of a type nor a list of such names. -/
  | noType (value : Document)
  /-- The list has an item more than once. -/
  | repeatedItem (list : Document)
  /-- The schema itself has a flaw. -/
  | badSchema (flaw : Violation)
deriving Repr

/-- A string in quotes. -/
def quoted (s : String) : String := String.ofList (Text.quote s)

def Violation.message : Violation → String
  | .wrongType value [type] => value.text ++ " is not of type " ++ quoted type
  | .wrongType value types =>
    value.text ++ " is not of types " ++ ", ".intercalate (types.map quoted)
  | .missingKey key => quoted key ++ " is a required property"
  | .refused value => "False schema does not allow " ++ value.text
  | .noType value =>
    value.text ++ " is not valid under any of the schemas listed in the 'anyOf' keyword"
  | .repeatedItem list => list.text ++ " has non-unique elements"
  | .badSchema flaw => "invalid schema: " ++ flaw.message

/-- A violation and where it is. -/
structure SchemaError where
  location : Location
  violation : Violation
deriving Repr

namespace SchemaError

/-- The location and the violation on one line. -/
def message (e : SchemaError) : String :=
  e.location.toPointer ++ ": " ++ e.violation.message

def document (e : SchemaError) : Document :=
  .obj [("path", .str e.location.toPointer), ("message", .str e.violation.message)]

end SchemaError

/-! ## Types -/

/-- The names of types, in alphabetic order. -/
def typeNames : List String :=
  ["array", "boolean", "integer", "null", "number", "object", "string"]

/-- Whether a value has the type of a name.  A double without fraction is an integer. -/
def hasType (name : String) : Document → Bool
  | .null => name == "null"
  | .bool _ => name == "boolean"
  | .num (.int _) => name == "number" || name == "integer"
  | .num (.float x) => name == "number" || (name == "integer" && x.isIntegral)
  | .str _ => name == "string"
  | .arr _ => name == "array"
  | .obj _ => name == "object"

/-- The types of a `type` keyword in alphabetic order, if it is a name or a list of names. -/
def types? : Document → Option (List String)
  | .str name => if typeNames.contains name then some [name] else none
  | .arr items =>
    let names := items.filterMap Document.asString?
    if items.isEmpty || names.length != items.length || !names.all typeNames.contains
        || !decide names.Nodup then none
    else some (typeNames.filter names.contains)
  | _ => none

/-! ## Violations -/

/-- The violation of a `type` keyword. -/
def typeViolations (type : Document) (loc : Location) (d : Document) : List SchemaError :=
  match types? type with
  | some names =>
    if names.any (hasType · d) then [] else [⟨loc, .wrongType d names⟩]
  | none => []

/-- The violations of a `required` keyword: the keys that an object lacks. -/
def requiredViolations (names : Document) (loc : Location) (d : Document) : List SchemaError :=
  match names, d with
  | .arr names, .obj members =>
    ((names.filterMap Document.asString?).filter fun k => !Members.contains k members).map
      fun k => ⟨loc, .missingKey k⟩
  | _, _ => []

mutual

/-- The violations of a schema by a value at a location. -/
def violationsAt (schema : Document) (loc : Location) (d : Document) : List SchemaError :=
  match schema with
  | .obj keywords => keywordViolations keywords loc d
  | .bool false => [⟨loc, .refused d⟩]
  | _ => []

/-- The violations of the keywords of a schema. -/
def keywordViolations (keywords : List (String × Document)) (loc : Location) (d : Document) :
    List SchemaError :=
  match keywords with
  | [] => []
  | (k, v) :: rest =>
    (if k = "type" then typeViolations v loc d
     else if k = "required" then requiredViolations v loc d
     else if k = "properties" then
       match v, d with
       | .obj properties, .obj members => propertyViolations properties loc members
       | _, _ => []
     else if k = "items" then
       match d with
       | .arr items => items.zipIdx.flatMap fun x => violationsAt v (loc.pushIndex x.2) x.1
       | _ => []
     else []) ++ keywordViolations rest loc d

/-- The violations of the schemas of some properties by the members of an object. -/
def propertyViolations (properties : List (String × Document)) (loc : Location)
    (members : Members) : List SchemaError :=
  match properties with
  | [] => []
  | (k, schema) :: rest =>
    (match Members.get? k members with
      | some v => violationsAt schema (loc.push k) v
      | none => []) ++ propertyViolations rest loc members

end

/-- The violations of a schema by a document. -/
def violations (schema d : Document) : List SchemaError :=
  violationsAt schema .root d

/-! ## Schemas -/

/-- The flaw of a `type` keyword. -/
def typeFlaw? (type : Document) : Option Violation :=
  if (types? type).isSome then none else some (.noType type)

/-- The flaw of a `required` keyword: it is a list of strings that all differ. -/
def requiredFlaw? (names : Document) : Option Violation :=
  match names with
  | .arr items =>
    match items.find? fun item => item.asString?.isNone with
    | some item => some (.wrongType item ["string"])
    | none =>
      if (items.filterMap Document.asString?).Nodup then none else some (.repeatedItem names)
  | _ => some (.wrongType names ["array"])

/-- The keywords in the order in which their flaws are looked for: those that hold schemas first. -/
def keywordOrder : List String := ["items", "properties", "type", "required"]

mutual

/-- The first flaw of a schema, those of the schemas in it before its own. -/
def flaw? (schema : Document) : Option Violation :=
  match schema with
  | .obj keywords => keywordOrder.findSome? fun name => keywordFlaw? name keywords
  | .bool _ => none
  | d => some (.wrongType d ["boolean", "object"])

/-- The flaw of the keyword of a name. -/
def keywordFlaw? (name : String) (keywords : List (String × Document)) : Option Violation :=
  match keywords with
  | [] => none
  | (k, v) :: rest =>
    if k = name then
      if k = "items" then flaw? v
      else if k = "properties" then
        match v with
        | .obj properties => propertyFlaw? properties
        | d => some (.wrongType d ["object"])
      else if k = "type" then typeFlaw? v
      else if k = "required" then requiredFlaw? v
      else none
    else keywordFlaw? name rest

/-- The first flaw of the schemas of some properties. -/
def propertyFlaw? (properties : List (String × Document)) : Option Violation :=
  match properties with
  | [] => none
  | (_, schema) :: rest => (flaw? schema).or (propertyFlaw? rest)

end

/-- What is wrong with a document under a schema, or with the schema itself. -/
def validate (schema d : Document) : List SchemaError :=
  match flaw? schema with
  | some flaw => [⟨.root, .badSchema flaw⟩]
  | none => violations schema d

/-! ## Workspace configurations -/

/-- The schema of a type by its name. -/
def typeSchema (name : String) : Document := .obj [("type", .str name)]

/-- The schema of a list of strings. -/
def stringsSchema : Document :=
  .obj [("type", .str "array"), ("items", typeSchema "string")]

/-- The schema of a resource. -/
def resourceSchema : Document :=
  .obj [("type", .str "object"),
    ("required", .arr [.str "name", .str "version"]),
    ("properties", .obj [("name", typeSchema "string"), ("version", typeSchema "number"),
      ("openapi", stringsSchema), ("asyncapi", stringsSchema), ("if", stringsSchema)])]

/-- The schema of a workspace configuration. -/
def configSchema : Document :=
  .obj [("type", .str "object"),
    ("required", .arr [.str "resources"]),
    ("properties", .obj [("resources",
      .obj [("type", .str "array"), ("items", resourceSchema)])])]

/-- What is wrong with a workspace configuration. -/
def validateConfig (d : Document) : List SchemaError :=
  validate configSchema d

end SchemaLoom
