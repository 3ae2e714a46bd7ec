import SchemaLoom.Decimal.Numeral
import SchemaLoom.Document.Text

/-!
# Records

A record is read from an object, field by field.  A field has a key and a type; it must be there, or
it is a list that is empty where its key is missing.  Keys that no field has are passed over.

- `RecordFault`: what keeps a record from being read, with its message.
- `Record.members`: the object of a record.
- `Record.required`, `Record.optional`: the field of a key.
- `Record.string`, `Record.word`, `Record.list`: the values of a type.

## What is left out

A record that is written as the list of its values, and fields that may be missing and are no lists:
no configuration has either.
-/

namespace SchemaLoom

/-- What keeps a record from being read. -/
inductive RecordFault where
  /-- A field that must be there is not. -/
  | missing (key : String)
  /-- A value is of another type than its field. -/
  | mistyped (value : Document) (expected : String)
  /-- An integer is out of the range of its field. -/
  | outOfRange (value : Int) (expected : String)
deriving Repr

/-- A value as a fault names it. -/
def Document.described : Document → String
  | .null => "null"
  | .bool b => "boolean \x60" ++ (if b then "true" else "false") ++ "\x60"
  | .num (.int i) => "integer \x60" ++ String.ofList (Number.int i).chars ++ "\x60"
  | .num (.float x) => "floating point \x60" ++ String.ofList (Number.float x).chars ++ "\x60"
  | .str s => "string " ++ String.ofList (Text.quote s)
  | .arr _ => "sequence"
  | .obj _ => "map"

def RecordFault.message : RecordFault → String
  | .missing key => "missing field \x60" ++ key ++ "\x60"
  | .mistyped value expected => "invalid type: " ++ value.described ++ ", expected " ++ expected
  | .outOfRange value expected =>
    "invalid value: " ++ (Document.num (.int value)).described ++ ", expected " ++ expected

namespace Record

variable {α : Type}

/-- The object of a record, given the name of the record. -/
def members (name : String) : Document → Except RecordFault Members
  | .obj members => .ok members
  | d => .error (.mistyped d ("struct " ++ name))

/-- The field of a key that must be there. -/
def required (key : String) (read : Document → Except RecordFault α) (members : Members) :
    Except RecordFault α :=
  match Members.get? key members with
  | some d => read d
  | none => .error (.missing key)

/-- The list of a key, empty where the key is missing. -/
def optional (key : String) (read : Document → Except RecordFault (List α)) (members : Members) :
    Except RecordFault (List α) :=
  match Members.get? key members with
  | some d => read d
  | none => .ok []

/-- A string, given what it stands for. -/
def string (expected : String) : Document → Except RecordFault String
  | .str s => .ok s
  | d => .error (.mistyped d expected)

/-- An integer from 0 on that fits into 64 bits. -/
def word : Document → Except RecordFault Nat
  | .num (.int i) =>
    if 0 ≤ i ∧ i < Numeral.wordLimit then .ok i.toNat else .error (.outOfRange i "u64")
  | d => .error (.mistyped d "u64")

/-- The items of a list, or the fault of the first item that has one. -/
def items (read : Document → Except RecordFault α) : List Document → Except RecordFault (List α)
  | [] => .ok []
  | d :: ds =>
    match read d with
    | .ok x => (items read ds).map (x :: ·)
    | .error fault => .error fault

def list (read : Document → Except RecordFault α) : Document → Except RecordFault (List α)
  | .arr ds => items read ds
  | d => .error (.mistyped d "a sequence")

end Record

end SchemaLoom
