import SchemaLoom.Yaml.Text

/-!
# The tokens of a YAML text

Indentation becomes tokens that open and close block collections, so that the structure of a text
can be read from its tokens alone.

- `Octets`: a tag or a part of one.
- `Token`: what a text is made of.
-/

namespace SchemaLoom.Yaml

/-- A tag or a part of one.  It is held as octets, which its percent escapes may spell one by one,
and these need not be the encoding of a text. -/
abbrev Octets := List UInt8

namespace Octets

def ofChars (cs : List Char) : Octets :=
  cs.flatMap String.utf8EncodeChar

/-- The octets before the first that is zero. -/
def untilNul (os : Octets) : Octets :=
  os.takeWhile (· != 0)

/-- The text that octets encode. -/
def text? (os : Octets) : Option String :=
  String.fromUTF8? os.toByteArray

end Octets

inductive Token where
  | streamEnd
  | versionDirective (major minor : Nat)
  | tagDirective (handle : String) (expansion : Octets)
  | documentStart
  | documentEnd
  | blockSequenceStart
  | blockMappingStart
  | blockEnd
  | flowSequenceStart
  | flowSequenceEnd
  | flowMappingStart
  | flowMappingEnd
  | blockEntry
  | flowEntry
  | key
  | value
  | alias (name : String)
  | anchor (name : String)
  | tag (handle : String) (suffix : Octets)
  | scalar (plain : Bool) (text : String)
deriving DecidableEq, Repr

/-- A scalar read from a text, and where it ends.  A plain scalar takes the white space after it
along; `newline` says whether that contains a line break. -/
structure ScalarText where
  text : String
  after : Cursor
  newline : Bool

end SchemaLoom.Yaml
