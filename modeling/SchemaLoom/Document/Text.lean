import SchemaLoom.Decimal.Layout
import SchemaLoom.Document.Basic

/-!
# The text of a document

Documents are written as JSON, members in their order.

- `Document.text`: the compact text, with no space between tokens.
- `Document.prettyText`: one item or member a line, indented by two spaces a level.

Strings escape what they must and nothing else: the quote, the backslash and the characters below
the space, five of which have a short form.
-/

namespace SchemaLoom

/-- Doubles are positional for leading exponents from -5 to 15, and an exponent has its sign. -/
def Number.layout : Layout := ⟨(-5, 15), true⟩

namespace Text

/-- The digit of a value below sixteen, in lower case. -/
def hexDigit (n : Nat) : Char :=
  Nat.digitChar n

/-- A value below 65536 as four hexadecimal digits. -/
def hex4 (n : Nat) : List Char :=
  [hexDigit (n / 4096 % 16), hexDigit (n / 256 % 16), hexDigit (n / 16 % 16), hexDigit (n % 16)]

/-- The escape of one UTF-16 unit. -/
def unitEscape (n : Nat) : List Char :=
  '\\' :: 'u' :: hex4 n

/-- A character as it stands between the quotes of a string. -/
def escape (c : Char) : List Char :=
  if c = '"' then ['\\', '"']
  else if c = '\\' then ['\\', '\\']
  else if c = '\n' then ['\\', 'n']
  else if c = '\r' then ['\\', 'r']
  else if c = '\t' then ['\\', 't']
  else if c = '\x08' then ['\\', 'b']
  else if c = '\x0c' then ['\\', 'f']
  else if c.toNat < 0x20 then unitEscape c.toNat
  else [c]

/-- A string in quotes. -/
def quote (s : String) : List Char :=
  '"' :: (s.toList.flatMap escape ++ ['"'])

end Text

/-- The text of a number. -/
def Number.chars : Number → List Char
  | .int (.ofNat n) => Nat.toDigits 10 n
  | .int (.negSucc n) => '-' :: Nat.toDigits 10 (n + 1)
  | .float x => Number.layout.write x

namespace Document

/-! ## Compact text -/

mutual

/-- The characters of the compact text. -/
def chars : Document → List Char
  | .null => ['n', 'u', 'l', 'l']
  | .bool true => ['t', 'r', 'u', 'e']
  | .bool false => ['f', 'a', 'l', 's', 'e']
  | .num n => n.chars
  | .str s => Text.quote s
  | .arr items => '[' :: charsItems items
  | .obj members => '\x7b' :: charsMembers members

/-- The items of an array and the bracket that closes it. -/
def charsItems : List Document → List Char
  | [] => [']']
  | d :: ds => chars d ++ charsMoreItems ds

/-- The items of an array after the first one. -/
def charsMoreItems : List Document → List Char
  | [] => [']']
  | d :: ds => ',' :: chars d ++ charsMoreItems ds

/-- The members of an object and the brace that closes it. -/
def charsMembers : List (String × Document) → List Char
  | [] => ['\x7d']
  | (k, v) :: ms => Text.quote k ++ ':' :: chars v ++ charsMoreMembers ms

/-- The members of an object after the first one. -/
def charsMoreMembers : List (String × Document) → List Char
  | [] => ['\x7d']
  | (k, v) :: ms => ',' :: Text.quote k ++ ':' :: chars v ++ charsMoreMembers ms

end

/-- The compact text of a document. -/
def text (d : Document) : String :=
  String.ofList d.chars

/-! ## Indented text -/

/-- A line break and the indentation of a level. -/
def newline (level : Nat) : List Char :=
  '\n' :: List.replicate (2 * level) ' '

mutual

/-- The characters of the indented text of a document at a level. -/
def prettyChars (level : Nat) : Document → List Char
  | .arr [] => ['[', ']']
  | .obj [] => ['\x7b', '\x7d']
  | .arr (d :: ds) =>
    '[' :: newline (level + 1) ++ prettyChars (level + 1) d ++ prettyItems level ds
  | .obj ((k, v) :: ms) =>
    '\x7b' :: newline (level + 1) ++ Text.quote k ++ ':' :: ' ' :: prettyChars (level + 1) v
      ++ prettyMembers level ms
  | .null => chars .null
  | .bool b => chars (.bool b)
  | .num n => n.chars
  | .str s => Text.quote s

def prettyItems (level : Nat) : List Document → List Char
  | [] => newline level ++ [']']
  | d :: ds => ',' :: newline (level + 1) ++ prettyChars (level + 1) d ++ prettyItems level ds

def prettyMembers (level : Nat) : List (String × Document) → List Char
  | [] => newline level ++ ['\x7d']
  | (k, v) :: ms =>
    ',' :: newline (level + 1) ++ Text.quote k ++ ':' :: ' ' :: prettyChars (level + 1) v
      ++ prettyMembers level ms

end

/-- The text of a document with one item or member a line. -/
def prettyText (d : Document) : String :=
  String.ofList (d.prettyChars 0)

end Document

end SchemaLoom
