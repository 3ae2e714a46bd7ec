import SchemaLoom.Decimal.Numeral
import SchemaLoom.Document.Basic
import SchemaLoom.Segments

/-!
# Locations

A location addresses a place in a document: it is the list of the keys and indices that lead there
from the root.  JSON pointers (RFC 6901) are the text of locations: each segment follows a slash,
with `~` written `~0` and `/` written `~1`.

- `Location.toPointer`, `Location.ofPointer`: the two directions.  Reading is lenient: a pointer
  that does not begin with a slash is read as if it did.
- `Location.resolve`: the value found at a location.

Locations are ordered as lists of segments, and segments by code points.
-/

namespace SchemaLoom

/-- The segments on the way from the root of a document to a place in it. -/
structure Location where
  segments : List String
deriving DecidableEq, Repr

namespace Location

instance : Ord Location := ⟨compareOn segments⟩

instance : Std.TransOrd Location :=
  inferInstanceAs (Std.TransCmp (compareOn segments))

instance : Std.LawfulEqOrd Location where
  eq_of_compare {a b} h := by
    cases a; cases b
    exact congrArg _ (Std.LawfulEqCmp.eq_of_compare h)

/-- The whole document. -/
def root : Location := ⟨[]⟩

/-- One step further down. -/
def push (loc : Location) (segment : String) : Location :=
  ⟨loc.segments ++ [segment]⟩

/-- Down to the item of an array. -/
def pushIndex (loc : Location) (index : Nat) : Location :=
  loc.push (toString index)

def last? (loc : Location) : Option String :=
  loc.segments.getLast?

def isRoot (loc : Location) : Bool :=
  loc.segments.isEmpty

/-! ## Pointers -/

/-- A character of a segment as it stands in a pointer. -/
def escape (c : Char) : List Char :=
  if c = '~' then ['~', '0'] else if c = '/' then ['~', '1'] else [c]

/-- The pointer of a location; the root has the empty one. -/
def pointerChars : List String → List Char
  | [] => []
  | s :: rest => '/' :: s.toList.flatMap escape ++ pointerChars rest

def toPointer (loc : Location) : String :=
  String.ofList (pointerChars loc.segments)

/-- Every `~` and digit in a text replaced by a character. -/
def unescape (digit c : Char) : List Char → List Char
  | '~' :: d :: rest =>
    if d = digit then c :: unescape digit c rest else '~' :: unescape digit c (d :: rest)
  | x :: rest => x :: unescape digit c rest
  | [] => []

/-- The segments of a pointer.  First `~1` and then `~0` is undone, so `~01` stands for `~1`. -/
def ofPointerChars : List Char → List String
  | [] => []
  | c :: rest =>
    let body := if c = '/' then rest else c :: rest
    (SchemaLoom.segments body).map fun s => String.ofList (unescape '0' '~' (unescape '1' '/' s))

def ofPointer (pointer : String) : Location :=
  ⟨ofPointerChars pointer.toList⟩

/-! ## Following a location -/

/-- A segment as an array index: decimal digits, possibly after a plus sign, whose number fits into
64 bits. -/
def index? (segment : String) : Option Nat :=
  let digits := match segment.toList with
    | '+' :: rest => rest
    | cs => cs
  (Numeral.value? 10 digits).filter (· < Numeral.wordLimit)

/-- One step: a member by its key, an item by its index. -/
def step? (segment : String) : Document → Option Document
  | .obj members => Members.get? segment members
  | .arr items => (index? segment).bind fun i => items[i]?
  | _ => none

/-- The value at the end of the segments. -/
def resolveSegments : List String → Document → Option Document
  | [], d => some d
  | s :: rest, d => (step? s d).bind (resolveSegments rest)

/-- The value at a location of a document, if the document has that place. -/
def resolve (loc : Location) (d : Document) : Option Document :=
  resolveSegments loc.segments d

end Location

end SchemaLoom
