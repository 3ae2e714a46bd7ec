import SchemaLoom.Decimal.Numeral
import SchemaLoom.Yaml.Token.Basic

/-!
# Quoted scalars

In single quotes a quote is written twice and everything else stands for itself; in double quotes a
backslash begins an escape.  Line breaks fold in both.
-/

namespace SchemaLoom.Yaml.Quoted

/-- Whether a word at a place is a document marker, which may not stand in a quoted scalar. -/
def atMarker (p : Position) (gap : Gap) (cs : List Char) : Bool :=
  !gap.isNone && p.column == 0 && isMarker cs

/-- The rest of a scalar in single quotes, after the characters read so far, reversed, and a gap. -/
def scanSingle (p : Position) (gap : Gap) (acc : List Char) :
    List Char → Except Fault ScalarText
  | [] => .error .unterminatedString
  | c :: cs =>
    if isBlank c then scanSingle (p.past c) (gap.blank c) acc cs
    else if isBreak c then scanSingle p.newline (gap.break_ c) acc cs
    else if atMarker p gap (c :: cs) then .error .markerInString
    else
      let acc := gap.text.reverse ++ acc
      if c = '\'' then
        match cs with
        | '\'' :: cs => scanSingle ((p.past c).past c) .none ('\'' :: acc) cs
        | cs => .ok ⟨String.ofList acc.reverse, ⟨p.past c, cs⟩, false⟩
      else scanSingle (p.past c) .none (c :: acc) cs

/-! ## Escapes -/

/-- The character of an escape that is one letter long. -/
def escape? (c : Char) : Option Char :=
  match c with
  | '0' => some '\x00'
  | 'a' => some '\x07'
  | 'b' => some '\x08'
  | 't' => some '\t'
  | '\t' => some '\t'
  | 'n' => some '\n'
  | 'v' => some '\x0b'
  | 'f' => some '\x0c'
  | 'r' => some '\r'
  | 'e' => some '\x1b'
  | ' ' => some ' '
  | '"' => some '"'
  | '/' => some '/'
  | '\\' => some '\\'
  | 'N' => some '\u0085'
  | '_' => some '\u00a0'
  | 'L' => some '\u2028'
  | 'P' => some '\u2029'
  | _ => none

/-- The count of hexadecimal digits of an escape that gives a code point. -/
def escapeWidth? (c : Char) : Option Nat :=
  match c with
  | 'x' => some 2
  | 'u' => some 4
  | 'U' => some 8
  | _ => none

/-- A code point under way: the digits still to come and the value so far. -/
structure CodePoint where
  left : Nat
  value : Nat

/-- The rest of a scalar in double quotes, after the characters read so far, reversed, a gap, and
possibly in the middle of an escape. -/
def scanDouble (p : Position) (gap : Gap) (code : Option CodePoint) (acc : List Char) :
    List Char → Except Fault ScalarText
  | [] => .error .unterminatedString
  | c :: cs =>
    match code with
    | some code =>
      match Numeral.digit? 16 c with
      | none => .error .badEscape
      | some d =>
        let value := 16 * code.value + d
        if 1 < code.left then scanDouble (p.past c) .none (some ⟨code.left - 1, value⟩) acc cs
        else if value.isValidChar then
          scanDouble (p.past c) .none none (Char.ofNat value :: acc) cs
        else .error .badEscape
    | none =>
      if isBlank c then scanDouble (p.past c) (gap.blank c) none acc cs
      else if isBreak c then scanDouble p.newline (gap.break_ c) none acc cs
      else if atMarker p gap (c :: cs) then .error .markerInString
      else
        let acc := gap.text.reverse ++ acc
        if c = '"' then .ok ⟨String.ofList acc.reverse, ⟨p.past c, cs⟩, false⟩
        else if c = '\\' then
          match cs with
          | [] => .error .unknownEscape
          | e :: cs =>
            if isBreak e then scanDouble p.newline (.lines [] []) none acc cs
            else
              match escape? e, escapeWidth? e with
              | some x, _ => scanDouble ((p.past c).past e) .none none (x :: acc) cs
              | none, some width =>
                scanDouble ((p.past c).past e) .none (some ⟨width, 0⟩) acc cs
              | none, none => .error .unknownEscape
        else scanDouble (p.past c) .none none (c :: acc) cs

/-- The quoted scalar at a place, which is at its first quote. -/
def read (single : Bool) (c : Cursor) : Except Fault ScalarText :=
  let c := c.drop 1
  if single then scanSingle c.position .none [] c.rest
  else scanDouble c.position .none none [] c.rest

end SchemaLoom.Yaml.Quoted
