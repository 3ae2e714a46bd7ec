import SchemaLoom.Yaml.Fault

/-!
# The characters of a YAML text

- `Text.prepare`: the characters of a text, checked and with one form of line break.  A carriage
  return, alone or before a line feed, and the next line character U+0085 all become a line feed;
  the separators U+2028 and U+2029 break lines too but stay what they are.
- `Position`: where a reader is in the text.
- `Gap`: the white space between two words of a scalar, and what it stands for.

## What is left out

Encodings: the text is one of characters already.
-/

namespace SchemaLoom.Yaml

/-- A space or a tab. -/
def isBlank (c : Char) : Bool :=
  c = ' ' || c = '\t'

/-- A character that ends a line. -/
def isBreak (c : Char) : Bool :=
  c = '\n' || c = '\u2028' || c = '\u2029'

/-- Whether a text ends here or goes on with white space. -/
def endsWord : List Char → Bool
  | [] => true
  | c :: _ => isBlank c || isBreak c

/-- A letter, a digit, `_` or `-`: what names are made of. -/
def isNameChar (c : Char) : Bool :=
  c.isAlphanum || c = '_' || c = '-'

/-- Whether a document marker, `---` or `...`, stands at the head of a text. -/
def isMarker : List Char → Bool
  | '-' :: '-' :: '-' :: rest => endsWord rest
  | '.' :: '.' :: '.' :: rest => endsWord rest
  | _ => false

/-! ## Preparation -/

/-- A character that may stand in a YAML text. -/
def isAllowed (c : Char) : Bool :=
  let n := c.toNat
  n == 0x09 || n == 0x0A || n == 0x0D || (0x20 ≤ n && n ≤ 0x7E) || n == 0x85
    || (0xA0 ≤ n && n ≤ 0xD7FF) || (0xE000 ≤ n && n ≤ 0xFFFD) || (0x10000 ≤ n && n ≤ 0x10FFFF)

/-- Every line ended by a line feed. -/
def unifyBreaks : List Char → List Char
  | [] => []
  | '\r' :: '\n' :: rest => '\n' :: unifyBreaks rest
  | c :: rest => (if c = '\r' ∨ c = '\u0085' then '\n' else c) :: unifyBreaks rest

/-- The characters of a text, ready to be read. -/
def prepare (text : String) : Except Fault (List Char) :=
  let cs := text.toList
  if cs.all isAllowed then .ok (unifyBreaks cs) else .error .controlCharacter

/-! ## Positions -/

/-- A place in a text: its line, and the counts of the characters and of the bytes before it on the
line. -/
structure Position where
  line : Nat
  column : Nat
  offset : Nat
deriving DecidableEq, Repr

namespace Position

def start : Position := ⟨0, 0, 0⟩

/-- After one more character of the line. -/
def past (p : Position) (c : Char) : Position :=
  ⟨p.line, p.column + 1, p.offset + c.utf8Size⟩

/-- After the break that ends the line. -/
def newline (p : Position) : Position := ⟨p.line + 1, 0, 0⟩

end Position

/-- A reader's place in a text, and what follows it. -/
structure Cursor where
  position : Position
  rest : List Char
deriving Repr

namespace Cursor

/-- Past some characters of the line. -/
def drop (c : Cursor) (n : Nat) : Cursor :=
  ⟨(c.rest.take n).foldl Position.past c.position, c.rest.drop n⟩

/-- The longest run of some characters, none of which ends a line, and the place after it. -/
def run (c : Cursor) (p : Char → Bool) : List Char × Cursor :=
  let found := c.rest.takeWhile p
  (found, c.drop found.length)

def skip (c : Cursor) (p : Char → Bool) : Cursor :=
  (c.run p).2

/-- Past the blanks and the comment at the end of a line. -/
def skipComment (c : Cursor) : Cursor :=
  let c := c.skip isBlank
  match c.rest with
  | '#' :: _ => c.skip fun x => !isBreak x
  | _ => c

/-- Past the break at the end of a line, if there is one. -/
def skipBreak (c : Cursor) : Cursor :=
  match c.rest with
  | x :: rest => if isBreak x then ⟨c.position.newline, rest⟩ else c
  | [] => c

end Cursor

/-! ## White space inside scalars -/

/-- The white space since the last word of a scalar. -/
inductive Gap where
  | none
  /-- Blanks on one line, the last one first. -/
  | blanks (reversed : List Char)
  /-- Line breaks: the first one, which an escape leaves out, and those after it in order. -/
  | lines (first more : List Char)
deriving Repr

namespace Gap

def isNone : Gap → Bool
  | .none => true
  | _ => false

def isLines : Gap → Bool
  | .lines _ _ => true
  | _ => false

/-- The gap after one more blank; blanks around line breaks do not count. -/
def blank (c : Char) : Gap → Gap
  | .none => .blanks [c]
  | .blanks cs => .blanks (c :: cs)
  | .lines first more => .lines first more

/-- The gap after one more line break. -/
def break_ (c : Char) : Gap → Gap
  | .lines first more => .lines first (more ++ [c])
  | _ => .lines [c] []

/-- What the gap stands for before another word: its blanks, or its line breaks with a first line
feed folded away, into a space if it is alone. -/
def text : Gap → List Char
  | .none => []
  | .blanks cs => cs.reverse
  | .lines ['\n'] [] => [' ']
  | .lines ['\n'] more => more
  | .lines first more => first ++ more

end Gap

end SchemaLoom.Yaml
