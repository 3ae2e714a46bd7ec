import SchemaLoom.Document.Canonical

/-!
# Behavior at a place of a document

Some arrays are sets written as lists: the order of their items means nothing, and a key taken from
each item says which items are the same.  A `Behavior` says whether the array at a place is such a
set, by which key, and which side wins where two documents disagree.

- `SortKey.key`: the text by which an item is sorted and identified.
- `sortByKey`: a list in the order of its keys, items with one key keeping their order.
-/

namespace SchemaLoom

/-- Which value stays where two documents hold different ones. -/
inductive Policy where
  /-- The value that was there first. -/
  | keep
  /-- The value that comes in. -/
  | replace
deriving DecidableEq, Repr

/-- How the key of an item of a set is taken. -/
inductive SortKey where
  /-- The canonical text of the item. -/
  | canonical
  /-- The string itself; for anything else the canonical text. -/
  | str
  /-- The values of some fields of an object; for anything else the canonical text. -/
  | identity (fields : List String)
deriving DecidableEq, Repr

namespace SortKey

/-- The text of a value that is compared: a string itself, else the canonical text. -/
def plainText : Document → String
  | .str s => s
  | d => d.canonical

/-- The text of one field of an object; a missing field counts as empty. -/
def fieldText (members : Members) (field : String) : String :=
  match Members.get? field members with
  | none => ""
  | some d => plainText d

/-- The key of an item.  The fields of an identity are joined by the character U+0000. -/
def key : SortKey → Document → String
  | .canonical, d => d.canonical
  | .str, d => plainText d
  | .identity fields, .obj members => "\x00".intercalate (fields.map (fieldText members))
  | .identity _, d => d.canonical

end SortKey

/-- The sort key of an array's items, if it is a set, and the policy on conflicts. -/
structure Behavior where
  sortKey : Option SortKey
  policy : Policy
deriving DecidableEq, Repr

namespace Behavior

/-- An ordered array, and the first value stays. -/
def default : Behavior := ⟨none, .keep⟩

instance : Inhabited Behavior := ⟨default⟩

/-- A set under a sort key, and the first value stays. -/
def sorted (key : SortKey) : Behavior := ⟨some key, .keep⟩

def isSet (b : Behavior) : Bool := b.sortKey.isSome

end Behavior

/-- A list in the order of the keys of its items, by code points.  The sort is stable. -/
def sortByKey (key : Document → String) (items : List Document) : List Document :=
  ((items.map fun d => (key d, d)).mergeSort fun a b => decide (a.1 ≤ b.1)).map Prod.snd

end SchemaLoom
