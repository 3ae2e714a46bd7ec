import SchemaLoom.Yaml.Scalar
import SchemaLoom.Yaml.Text

/-!
# How strings are written in YAML

A string is written in one of four styles, the plainest that reads back as the same string.

- `Style.ofString`: the style of a string.
- `Style.write`: the characters of a string in a style.

A string with a line feed is a block, any other one is plain or between single quotes; what none of
these can hold stands between double quotes, where everything can be escaped.
-/

namespace SchemaLoom.Yaml

inductive Style where
  | plain
  | single
  | double
  /-- A block of lines, each as it is. -/
  | literal
deriving DecidableEq, Repr

/-- A character that shows itself on a line, or a line feed. -/
def isPrintable (c : Char) : Bool :=
  let n := c.toNat
  n == 0x0A || (0x20 ≤ n && n ≤ 0x7E) || (0xA0 ≤ n && n ≤ 0xD7FF)
    || (0xE000 ≤ n && n ≤ 0xFFFD && n != 0xFEFF) || 0x10000 ≤ n

namespace Style

/-! ## What a style can hold -/

/-- Whether the first of two neighbours satisfies one condition and the second another one. -/
def hasPair (p q : Char → Bool) (cs : List Char) : Bool :=
  (cs.zip cs.tail).any fun x => p x.1 && q x.2

def isSpace (c : Char) : Bool := c = ' '

/-- A character that cannot begin a plain string. -/
def isIndicator (c : Char) : Bool :=
  ['#', ',', '[', ']', '\x7b', '\x7d', '&', '*', '!', '|', '>', '\'', '"', '%', '@',
    '\x60'].contains c

/-- Whether the beginning of a text means something else than a plain string. -/
def startsApart : List Char → Bool
  | '-' :: '-' :: '-' :: _ => true
  | '.' :: '.' :: '.' :: _ => true
  | '?' :: rest => endsWord rest
  | '-' :: rest => endsWord rest
  | c :: _ => isIndicator c || isSpace c
  | [] => true

/-- Whether the end of a text means something else than a plain string. -/
def endsApart (cs : List Char) : Bool :=
  match cs.getLast? with
  | some c => c = ':' || isSpace c
  | none => true

/-- Whether a plain string can hold a text. -/
def plainHolds (cs : List Char) : Bool :=
  cs.all (fun c => isPrintable c && !isBreak c)
    && !startsApart cs && !endsApart cs
    && !hasPair (· == ':') isSpace cs && !hasPair isSpace (· == '#') cs

/-- Whether a string between single quotes can hold a text. -/
def singleHolds (cs : List Char) : Bool :=
  cs.all isPrintable && !hasPair isSpace isBreak cs && !hasPair isBreak isSpace cs

/-- Whether a block of lines can hold a text. -/
def literalHolds (cs : List Char) : Bool :=
  cs.all isPrintable && !hasPair isSpace isBreak cs && cs.getLast? != some ' '

/-- The style of a string. -/
def ofString (s : String) : Style :=
  let cs := s.toList
  if cs.contains '\n' then if literalHolds cs then .literal else .double
  else if Scalar.isPlainString s && plainHolds cs then .plain
  else if singleHolds cs then .single
  else .double

/-! ## Writing -/

def spaces (n : Nat) : List Char := List.replicate n ' '

/-- A text whose lines are indented, the first one only if it is said to start a line. -/
def indent (n : Nat) : Bool → List Char → List Char
  | _, [] => []
  | starts, c :: rest =>
    if isBreak c then c :: indent n true rest
    else (if starts then spaces n else []) ++ c :: indent n false rest

def endsInBreak (cs : List Char) : Bool :=
  match cs.getLast? with
  | some c => isBreak c
  | none => false

/-- A value in hexadecimal digits, in upper case and so many. -/
def hex (width n : Nat) : List Char :=
  ((List.range width).map fun i => (Nat.digitChar (n / Nat.pow 16 i % 16)).toUpper).reverse

/-- A character as it stands between double quotes. -/
def escape (c : Char) : List Char :=
  if c = '"' then ['\\', '"']
  else if c = '\\' then ['\\', '\\']
  else if isPrintable c && !isBreak c then [c]
  else if c = '\x00' then ['\\', '0']
  else if c = '\x07' then ['\\', 'a']
  else if c = '\x08' then ['\\', 'b']
  else if c = '\t' then ['\\', 't']
  else if c = '\n' then ['\\', 'n']
  else if c = '\x0b' then ['\\', 'v']
  else if c = '\x0c' then ['\\', 'f']
  else if c = '\r' then ['\\', 'r']
  else if c = '\x1b' then ['\\', 'e']
  else if c = '\u0085' then ['\\', 'N']
  else if c = '\u2028' then ['\\', 'L']
  else if c = '\u2029' then ['\\', 'P']
  else if c.toNat ≤ 0xFF then '\\' :: 'x' :: hex 2 c.toNat
  else if c.toNat ≤ 0xFFFF then '\\' :: 'u' :: hex 4 c.toNat
  else '\\' :: 'U' :: hex 8 c.toNat

/-- What follows the bar of a block: the indentation, if the text hides it, and what becomes of the
line breaks at the end. -/
def header (cs : List Char) : List Char :=
  let hidden := match cs with
    | c :: _ => isSpace c || isBreak c
    | [] => false
  let chomping := match cs.reverse with
    | [] => ['-']
    | [c] => if isBreak c then ['+'] else ['-']
    | c :: b :: _ => if !isBreak c then ['-'] else if isBreak b then ['+'] else []
  (if hidden then ['2'] else []) ++ chomping

/-- The characters of a string in a style, its further lines indented. -/
def write (n : Nat) (cs : List Char) : Style → List Char
  | .plain => cs
  | .single =>
    let body := cs.flatMap fun c => if c = '\'' then ['\'', '\''] else [c]
    '\'' :: indent n false body ++ (if endsInBreak cs then spaces n else []) ++ ['\'']
  | .double => '"' :: cs.flatMap escape ++ ['"']
  | .literal => '|' :: header cs ++ '\n' :: indent n true cs

end Style

/-- A string in its style, its further lines indented. -/
def writeString (n : Nat) (s : String) : List Char :=
  (Style.ofString s).write n s.toList

end SchemaLoom.Yaml
