import SchemaLoom.Decimal.Numeral
import SchemaLoom.Document.Basic
import SchemaLoom.Yaml.Fault

/-!
# The values of scalars

A plain scalar is null, a boolean, a number or a string by its text; a quoted one is a string.

- `Scalar.resolve`: the value of a plain text.
- `Scalar.isPlainString`: whether a plain text is a string.
-/

namespace SchemaLoom.Yaml.Scalar

def isNull (text : String) : Bool :=
  ["null", "Null", "NULL", "~"].contains text

def bool? (text : String) : Option Bool :=
  if ["true", "True", "TRUE"].contains text then some true
  else if ["false", "False", "FALSE"].contains text then some false
  else none

/-- A text after its sign, if it has one. -/
def unsigned : List Char → List Char
  | '+' :: rest => rest
  | '-' :: rest => rest
  | cs => cs

/-- Digits with a zero before them, which are no number. -/
def isZeroPadded (cs : List Char) : Bool :=
  match unsigned cs with
  | '0' :: rest => !rest.isEmpty && rest.all Char.isDigit
  | _ => false

/-! ## Integers -/

/-- The digits after the mark of a radix. -/
def radix? : List Char → Option (Nat × List Char)
  | '0' :: 'x' :: rest => some (16, rest)
  | '0' :: 'o' :: rest => some (8, rest)
  | '0' :: 'b' :: rest => some (2, rest)
  | _ => none

/-- The number of an unsigned text, with or without the mark of a radix. -/
def magnitude? (cs : List Char) : Option Nat :=
  match radix? cs with
  | some (radix, digits) => Numeral.value? radix digits
  | none => Numeral.value? 10 cs

/-- The integer of a text, of any size. -/
def integer? (cs : List Char) : Option Int :=
  if isZeroPadded cs then none
  else
    match cs with
    | '-' :: rest => (magnitude? rest).map fun n => -n
    | '+' :: rest => (magnitude? rest).map fun n => n
    | _ => (magnitude? cs).map fun n => n

/-- Whether an integer fits into 64 bits, signed or unsigned. -/
def fits64 (i : Int) : Bool :=
  -0x8000000000000000 ≤ i && i < 0x10000000000000000

/-- Whether an integer fits into 128 bits, signed or unsigned.  One that does not is no integer. -/
def fits128 (i : Int) : Bool :=
  -0x80000000000000000000000000000000 ≤ i && i < 0x100000000000000000000000000000000

/-! ## Doubles -/

/-- The double of a text, as far as it is finite. -/
def finite? (cs : List Char) : Option Binary64 :=
  let (negative, body) := match cs with
    | '-' :: rest => (true, rest)
    | '+' :: rest => (false, rest)
    | _ => (false, cs)
  let (l, rest) := Literal.scan body
  if !rest.isEmpty || (l.whole.isEmpty && l.fraction.isEmpty) then none
  else l.float? negative

/-- Whether a text stands for an infinity, or for no number. -/
def isNotFinite (text : String) : Bool :=
  [".inf", ".Inf", ".INF", "+.inf", "+.Inf", "+.INF", "-.inf", "-.Inf", "-.INF",
    ".nan", ".NaN", ".NAN"].contains text

/-- The value of a text that stands for a double; one that is not finite is null. -/
def double? (text : String) : Option Document :=
  if isNotFinite text then some .null
  else (finite? text.toList).map fun x => .num (.float x)

/-! ## Values -/

/-- The value of a plain text. -/
def resolve (text : String) : Except Fault Document :=
  if text.isEmpty || isNull text then .ok .null
  else
    match bool? text with
    | some b => .ok (.bool b)
    | none =>
      match (integer? text.toList).filter fits128 with
      | some i => if fits64 i then .ok (.num (.int i)) else .error .numberOutOfRange
      | none =>
        if isZeroPadded text.toList then .ok (.str text)
        else .ok ((double? text).getD (.str text))

/-- Whether a text that is written plainly is read as the string it is. -/
def isPlainString (text : String) : Bool :=
  match resolve text with
  | .ok (.str _) => !isZeroPadded text.toList
  | _ => false

/-- The value of a scalar with a tag of the core of YAML; any other tag makes it a string. -/
def resolveTagged (tag text : String) : Except Fault Document :=
  if tag = "tag:yaml.org,2002:bool" then
    match bool? text with
    | some b => .ok (.bool b)
    | none => .error .badTaggedScalar
  else if tag = "tag:yaml.org,2002:int" then
    match (integer? text.toList).filter fits64 with
    | some i => .ok (.num (.int i))
    | none => .error .badTaggedScalar
  else if tag = "tag:yaml.org,2002:float" then
    match double? text with
    | some d => .ok d
    | none => .error .badTaggedScalar
  else if tag = "tag:yaml.org,2002:null" then
    if isNull text then .ok .null else .error .badTaggedScalar
  else .ok (.str text)

end SchemaLoom.Yaml.Scalar
