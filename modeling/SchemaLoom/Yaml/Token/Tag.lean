import SchemaLoom.Decimal.Numeral
import SchemaLoom.Yaml.Token.Basic

/-!
# Names, tags and directives

The tokens that begin with an indicator and end on the same line: anchors and aliases, tags, and
the directives before a document.

- `Tag.unescape`: the octets of a tag whose percent escapes are undone.
- `Tag.read`: a tag in one of its three forms, `!<suffix>`, `!name!suffix` and `!suffix`.
- `Directive.read`: a version, or what a tag's handle stands for.
-/

namespace SchemaLoom.Yaml

/-- The characters that may follow the name of an anchor or an alias without a space. -/
def endsAnchor (cs : List Char) : Bool :=
  endsWord cs || cs.head?.any ['?', ':', ',', ']', '\x7d', '%', '@', '\x60'].contains

/-- The name of an anchor or an alias at its indicator. -/
def readAnchor (c : Cursor) : Except Fault (String × Cursor) :=
  let (name, c) := (c.drop 1).run isNameChar
  if name.isEmpty || !endsAnchor c.rest then .error .badAnchor
  else .ok (String.ofList name, c)

namespace Tag

/-- The characters of a tag; brackets and commas only between angle brackets. -/
def isUriChar (verbatim : Bool) (c : Char) : Bool :=
  isNameChar c || [';', '/', '?', ':', '@', '&', '=', '+', '$', '.', '%', '!', '~', '*', '\'',
    '(', ')'].contains c || (verbatim && [',', '[', ']'].contains c)

/-- The count of octets that must come after an octet to complete a character, when so many were
missing before it. -/
def missingAfter : Nat → UInt8 → Option Nat
  | 0, o =>
    if o < 0x80 then some 0
    else if o < 0xC0 then none
    else if o < 0xE0 then some 1
    else if o < 0xF0 then some 2
    else if o < 0xF8 then some 3
    else none
  | n + 1, o => if 0x80 ≤ o && o < 0xC0 then some n else none

/-- The octets of a text with its percent escapes undone, when so many are missing before it to
complete a character.  The escapes of one character follow each other directly, each with two
digits; otherwise it is `none`. -/
def unescape : Nat → List Char → Option Octets
  | missing, [] => if missing = 0 then some [] else none
  | missing, '%' :: a :: b :: rest =>
    match Numeral.value? 16 [a, b] with
    | some n =>
      match missingAfter missing (UInt8.ofNat n) with
      | some missing => (unescape missing rest).map (UInt8.ofNat n :: ·)
      | none => none
    | none => none
  | _, '%' :: _ => none
  | missing, c :: rest =>
    if missing = 0 then (unescape 0 rest).map (String.utf8EncodeChar c ++ ·) else none

/-- The octets of the longest run of the characters of a tag. -/
def uri (verbatim : Bool) (c : Cursor) : Except Fault (Octets × Cursor) :=
  let (found, c) := c.run (isUriChar verbatim)
  match unescape 0 found with
  | some octets => .ok (octets, c)
  | none => .error .badTag

/-- The handle at an exclamation mark: the mark, and the name and second mark after it. -/
def handle (c : Cursor) : List Char × Cursor :=
  let (name, after) := (c.drop 1).run isNameChar
  match after.rest with
  | '!' :: _ => ('!' :: (name ++ ['!']), after.drop 1)
  | _ => ('!' :: name, after)

/-- The handle and the suffix of a tag between angle brackets: there is no handle.  A suffix ends
before its first zero octet, here and below; whether one is written at all is seen before that. -/
def verbatim (c : Cursor) : Except Fault (Token × Cursor) :=
  match uri true (c.drop 2) with
  | .error e => .error e
  | .ok (octets, c) =>
    match c.rest with
    | '>' :: _ =>
      if octets.isEmpty then .error .badTag
      else .ok (.tag "" octets.untilNul, c.drop 1)
    | _ => .error .badTag

/-- The handle and the suffix of a tag with a short handle, or with the handle `!` alone.  The tag
that is `!` alone has no handle and is its own suffix. -/
def short (c : Cursor) : Except Fault (Token × Cursor) :=
  let (h, c) := handle c
  let named := 1 < h.length && h.getLast? == some '!'
  match uri false c with
  | .error e => .error e
  | .ok (octets, c) =>
    if named then
      if octets.isEmpty then .error .badTag
      else .ok (.tag (String.ofList h) octets.untilNul, c)
    else
      let suffix := (Octets.ofChars h.tail ++ octets).untilNul
      if suffix.isEmpty then .ok (.tag "" (.ofChars ['!']), c)
      else .ok (.tag "!" suffix, c)

/-- The tag at a place, which must be followed by white space. -/
def read (flow : Bool) (c : Cursor) : Except Fault (Token × Cursor) :=
  let found := match c.rest with
    | '!' :: '<' :: _ => verbatim c
    | _ => short c
  match found with
  | .error e => .error e
  | .ok (t, c) =>
    if endsWord c.rest || (flow && c.rest.head? == some ',') then .ok (t, c)
    else .error .badTag

end Tag

namespace Directive

/-- A number of a version, at most nine digits long. -/
def number (c : Cursor) : Except Fault (Nat × Cursor) :=
  let (digits, c) := c.run Char.isDigit
  match Numeral.value? 10 digits with
  | some n => if digits.length ≤ 9 then .ok (n, c) else .error .badDirective
  | none => .error .badDirective

/-- The version that a directive declares. -/
def version (c : Cursor) : Except Fault (Token × Cursor) := do
  let (major, c) ← number (c.skip isBlank)
  match c.rest with
  | '.' :: _ =>
    let (minor, c) ← number (c.drop 1)
    return (.versionDirective major minor, c)
  | _ => .error .badDirective

/-- The handle that a directive declares, and what it stands for. -/
def tag (c : Cursor) : Except Fault (Token × Cursor) := do
  let c := c.skip isBlank
  match c.rest with
  | '!' :: _ =>
    let (h, c) := Tag.handle c
    if (1 < h.length && h.getLast? != some '!') || !(c.rest.head?.map isBlank).getD false then
      .error .badDirective
    else
      let (octets, c) ← Tag.uri true (c.skip isBlank)
      if octets.isEmpty || !endsWord c.rest then .error .badDirective
      else return (.tagDirective (String.ofList h) octets.untilNul, c)
  | _ => .error .badDirective

/-- The directive at a place, and the line below it. -/
def read (c : Cursor) : Except Fault (Token × Cursor) := do
  let (name, c) := (c.drop 1).run isNameChar
  if name.isEmpty || !endsWord c.rest then .error .badDirective
  else
    let (t, c) ←
      if name = ['Y', 'A', 'M', 'L'] then version c
      else if name = ['T', 'A', 'G'] then tag c
      else .error .badDirective
    let c := c.skipComment
    match c.rest with
    | [] => return (t, c)
    | x :: _ => if isBreak x then return (t, c.skipBreak) else .error .badDirective

end Directive

end SchemaLoom.Yaml
