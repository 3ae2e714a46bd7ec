import SchemaLoom.Decimal.Scaled
import SchemaLoom.Document.Text

/-!
# Reading the text of a document

`Document.ofText?` reads JSON.  An object keeps the order of its members; of a key that comes again
the first occurrence gives the place and the last one the value.  A number without point and
exponent is an integer when it fits into 64 bits, signed or unsigned, and a double otherwise; `-0`
is a double, because no integer has its sign.  Doubles are read by double arithmetic, so one with
many digits may come out next to the nearest.

Each function takes the characters still to be read and gives back those that it leaves.  A value
has fewer nested values than characters, so the count of characters bounds the recursion.

## What is left out

Where in a text a fault is: a text is the text of a document or it is not.
-/

namespace SchemaLoom

namespace Text

/-- A character that may stand between tokens. -/
def isBlank (c : Char) : Bool :=
  c = ' ' || c = '\t' || c = '\n' || c = '\r'

def skipBlanks (cs : List Char) : List Char :=
  cs.dropWhile isBlank

/-- The value of four hexadecimal digits at the head of a text. -/
def unit? : List Char → Option (Nat × List Char)
  | a :: b :: c :: d :: rest => (Numeral.value? 16 [a, b, c, d]).map (·, rest)
  | _ => none

/-- The character of a code point outside the surrogates. -/
def character? (n : Nat) : Option Char :=
  if n.isValidChar then some (Char.ofNat n) else none

/-- The character that follows `\u`: one unit, or a surrogate pair written as two escapes. -/
def unicodeEscape? (cs : List Char) : Option (Char × List Char) := do
  let (high, rest) ← unit? cs
  if 0xD800 ≤ high ∧ high < 0xDC00 then
    match rest with
    | '\\' :: 'u' :: rest =>
      let (low, rest) ← unit? rest
      if 0xDC00 ≤ low ∧ low < 0xE000 then
        let c ← character? (0x10000 + (high - 0xD800) * 0x400 + (low - 0xDC00))
        return (c, rest)
      else none
    | _ => none
  else
    let c ← character? high
    return (c, rest)

/-- The character of a one-letter escape. -/
def shortEscape? (c : Char) : Option Char :=
  if c = 'n' then some '\n'
  else if c = 't' then some '\t'
  else if c = 'r' then some '\r'
  else if c = 'b' then some '\x08'
  else if c = 'f' then some '\x0c'
  else if c = '"' ∨ c = '\\' ∨ c = '/' then some c
  else none

/-- The rest of a string after its opening quote; the characters read so far are reversed. -/
def readString (fuel : Nat) (cs : List Char) (acc : List Char) : Option (String × List Char) :=
  match fuel, cs with
  | 0, _ => none
  | _, [] => none
  | fuel + 1, c :: rest =>
    if c = '"' then some (String.ofList acc.reverse, rest)
    else if c = '\\' then
      match rest with
      | 'u' :: rest => (unicodeEscape? rest).bind fun p => readString fuel p.2 (p.1 :: acc)
      | e :: rest => (shortEscape? e).bind fun x => readString fuel rest (x :: acc)
      | [] => none
    else if c.toNat < 0x20 then none
    else readString fuel rest (c :: acc)

end Text

/-- The number of a literal: an integer if it is written as one and fits. -/
def Number.ofLiteral? (negative : Bool) (l : Literal) : Option Number :=
  let n := Numeral.decimalValue l.whole
  let plain := !l.point && l.exponent.isNone
  if plain && !negative && n < Numeral.wordLimit then some (.int n)
  else if plain && negative && 0 < n && 2 * n ≤ Numeral.wordLimit then some (.int (-n))
  else (l.scaled? negative).map .float

/-- A number at the head of a text. -/
def Number.read? (cs : List Char) : Option (Number × List Char) :=
  let (negative, body) := match cs with
    | '-' :: rest => (true, rest)
    | _ => (false, cs)
  let (l, rest) := Literal.scan body
  let leadingZero := l.whole.head? == some '0' && 1 < l.whole.length
  if l.whole.isEmpty || leadingZero || (l.point && l.fraction.isEmpty) then none
  else (Number.ofLiteral? negative l).map (·, rest)

namespace Document

mutual

/-- A value at the head of a text. -/
def read (fuel : Nat) (cs : List Char) : Option (Document × List Char) :=
  match fuel, Text.skipBlanks cs with
  | 0, _ => none
  | _, 'n' :: 'u' :: 'l' :: 'l' :: rest => some (.null, rest)
  | _, 't' :: 'r' :: 'u' :: 'e' :: rest => some (.bool true, rest)
  | _, 'f' :: 'a' :: 'l' :: 's' :: 'e' :: rest => some (.bool false, rest)
  | fuel + 1, '"' :: rest =>
    (Text.readString (fuel + 1) rest []).map fun p => (.str p.1, p.2)
  | fuel + 1, '[' :: rest =>
    match Text.skipBlanks rest with
    | ']' :: rest => some (.arr [], rest)
    | rest => readItems fuel rest []
  | fuel + 1, '\x7b' :: rest =>
    match Text.skipBlanks rest with
    | '\x7d' :: rest => some (.obj [], rest)
    | rest => readMembers fuel rest []
  | _, cs => (Number.read? cs).map fun p => (.num p.1, p.2)

/-- The items of an array from one on, those before it reversed. -/
def readItems (fuel : Nat) (cs : List Char) (acc : List Document) :
    Option (Document × List Char) :=
  match fuel with
  | 0 => none
  | fuel + 1 => do
    let (item, rest) ← read fuel cs
    match Text.skipBlanks rest with
    | ',' :: rest => readItems fuel rest (item :: acc)
    | ']' :: rest => some (.arr (item :: acc).reverse, rest)
    | _ => none

/-- The members of an object from one on, after those already read. -/
def readMembers (fuel : Nat) (cs : List Char) (acc : List (String × Document)) :
    Option (Document × List Char) :=
  match fuel with
  | 0 => none
  | fuel + 1 =>
    match Text.skipBlanks cs with
    | '"' :: rest => do
      let (key, rest) ← Text.readString (fuel + 1) rest []
      match Text.skipBlanks rest with
      | ':' :: rest =>
        let (value, rest) ← read fuel rest
        match Text.skipBlanks rest with
        | ',' :: rest => readMembers fuel rest ((key, value) :: acc)
        | '\x7d' :: rest => some (.obj (Members.ofPairs ((key, value) :: acc).reverse), rest)
        | _ => none
      | _ => none
    | _ => none

end

/-- The document that a text stands for, if the text is one JSON value. -/
def ofText? (text : String) : Option Document :=
  let cs := text.toList
  match read (2 * cs.length + 2) cs with
  | some (d, rest) => if (Text.skipBlanks rest).isEmpty then some d else none
  | none => none

end Document

end SchemaLoom
