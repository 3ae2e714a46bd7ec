import SchemaLoom.Location
import SchemaLoom.SortedMap

/-!
# Differences of two documents

Two documents are compared place by place, objects by key and arrays by index, without a grammar.

- `diff`: what differs, by location.
- `Difference.Entry`: a value that is missing on the right, one that is extra there, or two values
  that do not match.

Two differences are compared location by location, with `==`, and the documents in them as
documents.
-/

namespace SchemaLoom

namespace Difference

/-- How two documents differ at one place. -/
inductive Entry where
  /-- The left document has a value there and the right one has none. -/
  | missing (value : Document)
  /-- The right document has a value there and the left one has none. -/
  | extra (value : Document)
  /-- Both have values, and they are not alike. -/
  | mismatch (left right : Document)
deriving Repr

/-- An entry as a document. -/
def Entry.document : Entry → Document
  | .missing value => .obj [("kind", .str "missing"), ("value", value)]
  | .extra value => .obj [("kind", .str "extra"), ("value", value)]
  | .mismatch left right =>
    .obj [("kind", .str "mismatch"), ("left", left), ("right", right)]

/-- Equality of entries; an entry of one kind never equals one of another. -/
def Entry.equal : Entry → Entry → Bool
  | .missing v, .missing w => v == w
  | .extra v, .extra w => v == w
  | .mismatch l r, .mismatch l' r' => l == l' && r == r'
  | _, _ => false

instance : BEq Entry := ⟨Entry.equal⟩

/-- Members of the right object whose keys the left one lacks. -/
def extraMembers (loc : Location) (left right : Members) : List (Location × Entry) :=
  (right.filter fun m => !Members.contains m.1 left).map fun m => (loc.push m.1, .extra m.2)

/-- Items of the right array from an index on, which the left one lacks. -/
def extraItems (loc : Location) (index : Nat) : List Document → List (Location × Entry)
  | [] => []
  | d :: ds => (loc.pushIndex index, .extra d) :: extraItems loc (index + 1) ds

mutual

/-- The differences of two documents below a location. -/
def entriesAt (loc : Location) : Document → Document → List (Location × Entry)
  | .obj left, .obj right => entriesMembers loc right left ++ extraMembers loc left right
  | .arr left, .arr right => entriesItems loc 0 left right
  | left, right => if left == right then [] else [(loc, .mismatch left right)]

/-- The differences under the keys of the left object. -/
def entriesMembers (loc : Location) (right : Members) :
    List (String × Document) → List (Location × Entry)
  | [] => []
  | (k, v) :: rest =>
    (match Members.get? k right with
      | some other => entriesAt (loc.push k) v other
      | none => [(loc.push k, .missing v)]) ++ entriesMembers loc right rest

/-- The differences of two arrays from an index on. -/
def entriesItems (loc : Location) (index : Nat) :
    List Document → List Document → List (Location × Entry)
  | [], right => extraItems loc index right
  | d :: left, [] => (loc.pushIndex index, .missing d) :: entriesItems loc (index + 1) left []
  | d :: left, e :: right =>
    entriesAt (loc.pushIndex index) d e ++ entriesItems loc (index + 1) left right

end

end Difference

/-- What differs between two documents, by location. -/
abbrev Difference := SortedMap Location Difference.Entry

/-- Two differences are equal when they have equal entries at the same locations. -/
instance : BEq Difference := ⟨fun d e => d.entries == e.entries⟩

/-- The differences of two documents. -/
def diff (left right : Document) : Difference :=
  SortedMap.ofList (Difference.entriesAt .root left right)

namespace Difference

/-- The differences as a document, by pointer. -/
def document (d : Difference) : Document :=
  .obj (Members.ofPairs (d.entries.map fun e => (e.1.toPointer, e.2.document)))

/-- The locations of values that the right document lacks. -/
def missing (d : Difference) : List Location :=
  d.entries.filterMap fun e => match e.2 with | .missing _ => some e.1 | _ => none

/-- The locations of values that only the right document has. -/
def extra (d : Difference) : List Location :=
  d.entries.filterMap fun e => match e.2 with | .extra _ => some e.1 | _ => none

/-- The locations at which both documents have values that are not alike. -/
def mismatch (d : Difference) : List Location :=
  d.entries.filterMap fun e => match e.2 with | .mismatch _ _ => some e.1 | _ => none

end Difference

end SchemaLoom
