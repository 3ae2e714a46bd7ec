import SchemaLoom.Document.Text

/-!
# Canonical text

The canonical text of a document does not depend on the order of the members of its objects and
holds printable ASCII only, so that equal documents have one text and texts sort alike everywhere.

- `Document.sortKeys`: the document with the members of every object sorted by key.
- `Document.canonical`: the compact text of that, with every character from U+007F on escaped.
-/

namespace SchemaLoom

namespace Text

/-- The UTF-16 units of a character. -/
def units16 (c : Char) : List Nat :=
  let n := c.toNat
  if n < 0x10000 then [n]
  else [0xD800 + (n - 0x10000) / 0x400, 0xDC00 + (n - 0x10000) % 0x400]

/-- A character, or its escapes when it is beyond printable ASCII. -/
def ascii (c : Char) : List Char :=
  if c.toNat < 0x7F then [c] else (units16 c).flatMap unitEscape

end Text

/-- Members sorted by key, by code points. -/
def Members.sort (ms : Members) : Members :=
  ms.mergeSort fun a b => decide (a.1 ≤ b.1)

namespace Document

mutual

/-- The document with the members of every object sorted by key. -/
def sortKeys : Document → Document
  | .arr items => .arr (sortKeysItems items)
  | .obj members => .obj (Members.sort (sortKeysMembers members))
  | .null => .null
  | .bool b => .bool b
  | .num n => .num n
  | .str s => .str s

def sortKeysItems : List Document → List Document
  | [] => []
  | d :: ds => sortKeys d :: sortKeysItems ds

def sortKeysMembers : List (String × Document) → List (String × Document)
  | [] => []
  | (k, v) :: ms => (k, sortKeys v) :: sortKeysMembers ms

end

/-- The canonical text of a document. -/
def canonical (d : Document) : String :=
  String.ofList (d.sortKeys.chars.flatMap Text.ascii)

end Document

end SchemaLoom
