import SchemaLoom.Location

/-!
# Struct descriptions

The data types of a C program that hold the values of a schema: named structs with typed fields.
An array dimension with room between its bounds, a field that is not required and a union all call
for a wrapper around the value, which is left to whoever writes the code out.

- `Dim`, `CType`: the dimensions of an array, and a type by its name and dimensions.
- `FieldType`, `Field`: a field has one type or is a union of several.  No schema becomes a union.
- `Struct`: a struct with the location of its schema.
- `Struct.document`: a struct as a document, and so for each of its parts.
-/

namespace SchemaLoom

/-- An array dimension: at least `min` and at most `max` elements. -/
structure Dim where
  min : Nat
  max : Nat
deriving DecidableEq, Repr

namespace Dim

/-- Exactly `n` elements. -/
def fixed (n : Nat) : Dim := ⟨n, n⟩

def isFixed (d : Dim) : Bool := d.min == d.max

def document (d : Dim) : Document :=
  .obj [("min", .num (.int d.min)), ("max", .num (.int d.max))]

end Dim

/-- A C type: the name of its elements' type, and its array dimensions, the outermost first. -/
structure CType where
  name : String
  dims : List Dim
deriving DecidableEq, Repr

namespace CType

/-- A type that is no array. -/
def plain (name : String) : CType := ⟨name, []⟩

def isArray (t : CType) : Bool := !t.dims.isEmpty

def document (t : CType) : Document :=
  .obj [("name", .str t.name), ("dims", .arr (t.dims.map Dim.document))]

end CType

/-- The type of a field: one type, or the variants of a union. -/
inductive FieldType where
  | single (ctype : CType)
  | union (variants : List CType)
deriving DecidableEq, Repr

def FieldType.document : FieldType → Document
  | .single t => t.document
  | .union ts => .arr (ts.map CType.document)

structure Field where
  name : String
  type : FieldType
  required : Bool
deriving DecidableEq, Repr

namespace Field

/-- The type of a field that is no union. -/
def ctype? (f : Field) : Option CType :=
  match f.type with
  | .single t => some t
  | .union _ => none

def document (f : Field) : Document :=
  .obj [("name", .str f.name), ("type", f.type.document), ("required", .bool f.required)]

end Field

/-- A struct, and the location of the schema it describes. -/
structure Struct where
  ctype : CType
  location : Location
  fields : List Field
deriving DecidableEq, Repr

namespace Struct

def name (s : Struct) : String := s.ctype.name

/-- The first field of a name. -/
def field? (s : Struct) (name : String) : Option Field :=
  s.fields.find? fun f => f.name == name

def document (s : Struct) : Document :=
  .obj [("ctype", s.ctype.document), ("location", .str s.location.toPointer),
    ("fields", .arr (s.fields.map Field.document))]

end Struct

end SchemaLoom
