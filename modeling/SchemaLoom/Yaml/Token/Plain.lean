import SchemaLoom.Yaml.Token.Basic

/-!
# Plain scalars

A plain scalar is a run of words without quotes.  It ends before a colon or a number sign that
stands for itself, at a document marker, where the indentation falls back, and in a flow collection
also at the indicators of one.
-/

namespace SchemaLoom.Yaml.Plain

/-- The indicators that end a plain scalar in a flow collection. -/
def isFlowEnd (c : Char) : Bool :=
  c = ',' || c = '[' || c = ']' || c = '\x7b' || c = '\x7d'

/-- The characters before which a colon may not stand in a plain scalar of a flow collection. -/
def isAfterColon (c : Char) : Bool :=
  isFlowEnd c || c = '?'

/-- Whether a scalar ends at a word that follows white space. -/
def endsAtWord (flow : Bool) (indent : Nat) (p : Position) (cs : List Char) : Bool :=
  (!flow && p.column < indent) || cs.head? == some '#' || (p.column == 0 && isMarker cs)

/-- Whether a scalar ends at a character. -/
def endsAt (flow : Bool) (c : Char) (rest : List Char) : Bool :=
  (c = ':' && endsWord rest) || (flow && isFlowEnd c)

/-- The rest of a plain scalar, after the characters read so far, reversed, and a gap. -/
def scan (flow : Bool) (indent : Nat) (p : Position) (gap : Gap) (acc : List Char) :
    List Char → Except Fault ScalarText
  | [] => .ok ⟨String.ofList acc.reverse, ⟨p, []⟩, gap.isLines⟩
  | c :: cs =>
    if isBlank c then
      if gap.isLines && p.column < indent && c = '\t' then .error .tabIndentation
      else scan flow indent (p.past c) (gap.blank c) acc cs
    else if isBreak c then scan flow indent p.newline (gap.break_ c) acc cs
    else if !gap.isNone && endsAtWord flow indent p (c :: cs) then
      .ok ⟨String.ofList acc.reverse, ⟨p, c :: cs⟩, gap.isLines⟩
    else if flow && c = ':' && (cs.head?.map isAfterColon).getD false then .error .colonInFlow
    else if endsAt flow c cs then
      .ok ⟨String.ofList acc.reverse, ⟨p, c :: cs⟩, gap.isLines⟩
    else scan flow indent (p.past c) .none (c :: (gap.text.reverse ++ acc)) cs

/-- The plain scalar at a place. -/
def read (flow : Bool) (indent : Nat) (c : Cursor) : Except Fault ScalarText :=
  scan flow indent c.position .none [] c.rest

end SchemaLoom.Yaml.Plain
