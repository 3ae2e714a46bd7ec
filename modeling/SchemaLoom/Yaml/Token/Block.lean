import SchemaLoom.Decimal.Numeral
import SchemaLoom.Yaml.Token.Basic

/-!
# Block scalars

A block scalar is the lines below its header that are indented deeper than what holds it.  After
`|` the lines stay as they are, and after `>` they fold.  The header may give the indentation and
says what becomes of the line breaks at the end.
-/

namespace SchemaLoom.Yaml.Block

/-- What becomes of the line breaks after the last line. -/
inductive Chomp where
  | strip
  | clip
  | keep
deriving DecidableEq, Repr

/-- What the header of a block scalar says. -/
structure Header where
  chomp : Chomp
  increment : Option Nat

def chomp? (c : Char) : Option Chomp :=
  if c = '+' then some .keep else if c = '-' then some .strip else none

/-- An indentation indicator at the head of a text. -/
def increment? (cs : List Char) : Except Fault (Option Nat) :=
  match cs with
  | c :: _ =>
    if c = '0' then .error .badBlockHeader
    else if c.isDigit then .ok (Numeral.digit? 10 c)
    else .ok none
  | [] => .ok none

/-- The indicators of a header, in either order, and the place after them. -/
def indicators (c : Cursor) : Except Fault (Header × Cursor) :=
  match c.rest.head?.bind chomp? with
  | some chomp =>
    let c := c.drop 1
    match increment? c.rest with
    | .error e => .error e
    | .ok none => .ok (⟨chomp, none⟩, c)
    | .ok (some n) => .ok (⟨chomp, some n⟩, c.drop 1)
  | none =>
    match increment? c.rest with
    | .error e => .error e
    | .ok none => .ok (⟨.clip, none⟩, c)
    | .ok (some n) =>
      let c := c.drop 1
      match c.rest.head?.bind chomp? with
      | some chomp => .ok (⟨chomp, some n⟩, c.drop 1)
      | none => .ok (⟨.clip, some n⟩, c)

/-- The header at a place, which is after the indicator of the scalar, and the first line below. -/
def header (c : Cursor) : Except Fault (Header × Cursor) :=
  match indicators c with
  | .error e => .error e
  | .ok (h, c) =>
    let c := c.skipComment
    match c.rest with
    | [] => .ok (h, c)
    | x :: _ => if isBreak x then .ok (h, c.skipBreak) else .error .badBlockHeader

/-- The lines of a block scalar read so far. -/
structure State where
  /-- The column at which lines begin, once it is known. -/
  indent : Option Nat
  /-- The widest of the empty lines before the first line. -/
  widest : Nat
  /-- Whether the reader is inside a line, and not before one. -/
  inLine : Bool
  /-- The break that ended the last line. -/
  lineEnd : List Char
  /-- The breaks of the empty lines since then. -/
  breaks : List Char
  /-- Whether the last line began with a blank. -/
  blankStart : Bool
  /-- The characters read, reversed. -/
  acc : List Char

/-- What stands between the last line and one that begins with the given character.  A folded line
feed becomes a space, and is dropped before empty lines; it stays next to a line that begins with
a blank. -/
def State.join (s : State) (literal : Bool) (c : Char) : List Char :=
  let fold := !literal && s.lineEnd == ['\n'] && !s.blankStart && !isBlank c
  (if fold then (if s.breaks.isEmpty then [' '] else []) else s.lineEnd) ++ s.breaks

/-- The text of a block scalar, its end chomped. -/
def State.text (s : State) (chomp : Chomp) : String :=
  let tail := match chomp with
    | .strip => []
    | .clip => s.lineEnd
    | .keep => s.lineEnd ++ s.breaks
  String.ofList (s.acc.reverse ++ tail)

/-- The rest of a block scalar whose lines begin at a column no less than `floor`. -/
def scan (literal : Bool) (chomp : Chomp) (floor : Nat) (p : Position) (s : State) :
    List Char → Except Fault ScalarText
  | [] =>
    let s := if s.inLine then { s with lineEnd := [], breaks := [] } else s
    .ok ⟨s.text chomp, ⟨p, []⟩, true⟩
  | c :: cs =>
    if s.inLine then
      if isBreak c then
        scan literal chomp floor p.newline
          { s with inLine := false, lineEnd := [c], breaks := [] } cs
      else scan literal chomp floor (p.past c) { s with acc := c :: s.acc } cs
    else
      let before := (s.indent.map fun n => decide (p.column < n)).getD true
      if before && c = ' ' then scan literal chomp floor (p.past c) s cs
      else if before && c = '\t' then .error .tabIndentation
      else
        let widest := max s.widest p.column
        if isBreak c then
          scan literal chomp floor p.newline { s with widest, breaks := s.breaks ++ [c] } cs
        else
          let indent := s.indent.getD (max widest floor)
          if p.column = indent then
            let acc := c :: ((s.join literal c).reverse ++ s.acc)
            scan literal chomp floor (p.past c)
              { s with indent := some indent, inLine := true, lineEnd := [], breaks := [],
                       blankStart := isBlank c, acc } cs
          else .ok ⟨s.text chomp, ⟨p, c :: cs⟩, true⟩

/-- The block scalar at a place, which is at its indicator, held by something at a given column;
`none` stands for the document itself. -/
def read (literal : Bool) (parent : Option Nat) (c : Cursor) : Except Fault ScalarText :=
  match header (c.drop 1) with
  | .error e => .error e
  | .ok (h, c) =>
    let indent := h.increment.map fun n => parent.getD 0 + n
    let floor := (parent.map (· + 1)).getD 1
    scan literal h.chomp floor c.position ⟨indent, 0, false, [], [], false, []⟩ c.rest

end SchemaLoom.Yaml.Block
