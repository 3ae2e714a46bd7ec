import SchemaLoom.Document.Text
import SchemaLoom.Yaml.Style

/-!
# The YAML text of a document

`Document.yamlText` writes a document in the block style: every item and every member begins a line,
two spaces further in than what it belongs to.  The items of a sequence stand right below the key
of the sequence, and a collection in an item begins on the line of the item.  An empty
collection is a pair of brackets.

## What is left out

Tags, anchors and several documents in one text, none of which a document needs.
-/

namespace SchemaLoom

open Yaml Style

namespace Document

/-- Doubles are positional for leading exponents from -5 to 15, and an exponent has no plus. -/
def yamlLayout : Layout := ⟨(-5, 15), false⟩

/-- Whether a value is written on the line of its key. -/
def isFlat : Document → Bool
  | .arr (_ :: _) => false
  | .obj (_ :: _) => false
  | _ => true

/-- A text up to the end of its line. -/
def closeLine (cs : List Char) : List Char :=
  if endsInBreak cs then cs else cs ++ ['\n']

/-- The longest key, in bytes, that stands before its colon. -/
def maxSimpleKey : Nat := 128

/-- Whether a key stands before its colon on one line. -/
def isSimpleKey (k : String) : Bool :=
  k.utf8ByteSize ≤ maxSimpleKey
    && k.toList.all fun c => !(isBreak c || c = '\r' || c = '\u0085')

/-- How far in a value stands below its key: the items of a sequence no further than the key. -/
def memberIndent (n : Nat) : Document → Nat
  | .arr _ => n
  | _ => n + 2

mutual

/-- The lines of a document whose first line is already indented. -/
def yamlChars (n : Nat) : Document → List Char
  | .arr (d :: ds) => '-' :: ' ' :: yamlChars (n + 2) d ++ yamlItems n ds
  | .obj ((k, v) :: ms) => yamlMember n k v ++ yamlMembers n ms
  | .arr [] => closeLine ['[', ']']
  | .obj [] => closeLine ['\x7b', '\x7d']
  | .null => closeLine (chars .null)
  | .bool b => closeLine (chars (.bool b))
  | .num (.int i) => closeLine (Number.int i).chars
  | .num (.float x) => closeLine (yamlLayout.write x)
  | .str s => closeLine (writeString n s)

/-- The lines of items, each with its dash. -/
def yamlItems (n : Nat) : List Document → List Char
  | [] => []
  | d :: ds => spaces n ++ '-' :: ' ' :: yamlChars (n + 2) d ++ yamlItems n ds

/-- The lines of a member whose key is already indented. -/
def yamlMember (n : Nat) (k : String) (v : Document) : List Char :=
  if isSimpleKey k then
    writeString (n + 2) k ++ ':' ::
      (if v.isFlat then ' ' :: yamlChars (n + 2) v
       else '\n' :: spaces (memberIndent n v) ++ yamlChars (memberIndent n v) v)
  else
    '?' :: ' ' :: closeLine (writeString (n + 2) k) ++ spaces n
      ++ ':' :: ' ' :: yamlChars (n + 2) v

/-- The lines of members. -/
def yamlMembers (n : Nat) : List (String × Document) → List Char
  | [] => []
  | (k, v) :: ms => spaces n ++ yamlMember n k v ++ yamlMembers n ms

end

/-- The YAML text of a document, with a line break at its end. -/
def yamlText (d : Document) : String :=
  String.ofList (d.yamlChars (if d.isFlat then 2 else 0))

end Document

end SchemaLoom
