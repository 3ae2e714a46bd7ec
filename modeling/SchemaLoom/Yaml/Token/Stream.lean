import SchemaLoom.Yaml.Token.Block
import SchemaLoom.Yaml.Token.Plain
import SchemaLoom.Yaml.Token.Quoted
import SchemaLoom.Yaml.Token.Tag

/-!
# The token stream of a YAML text

`Token.ofText` reads a text into its tokens.

A mapping key without an indicator of its own is known to be a key only at the colon after it.  So
the reader remembers, for each level of flow collections, the last token that a key may begin at;
at the colon it puts the `key` token in front of that one, and the start of the block mapping too,
if the key is indented deeper than the block before it.  A key ends on its line and has at most
1024 bytes.
-/

namespace SchemaLoom.Yaml

/-- A token that a key may begin at. -/
structure KeyStart where
  /-- Whether nothing but a key may stand here. -/
  required : Bool
  /-- The count of tokens before it. -/
  before : Nat
  position : Position
deriving Repr

/-- A reader of tokens. -/
structure Scanner where
  cursor : Cursor
  /-- The tokens read, the last one first. -/
  tokens : List Token
  count : Nat
  /-- The column of the innermost block collection; `none` outside of all. -/
  indent : Option Nat
  /-- The columns of the collections around it. -/
  outer : List (Option Nat)
  /-- Whether a key may begin at the next token. -/
  keyAllowed : Bool
  /-- The key start on the current level. -/
  keyStart : Option KeyStart
  /-- The key starts on the levels around it; a level is a flow collection. -/
  outerStarts : List (Option KeyStart)

namespace Scanner

def ofChars (cs : List Char) : Scanner :=
  { cursor := ⟨.start, cs⟩, tokens := [], count := 0, indent := none, outer := [],
    keyAllowed := true, keyStart := none, outerStarts := [] }

def inFlow (s : Scanner) : Bool := !s.outerStarts.isEmpty

def column (s : Scanner) : Nat := s.cursor.position.column

def push (s : Scanner) (t : Token) : Scanner :=
  { s with tokens := t :: s.tokens, count := s.count + 1 }

/-- Put a token behind the first `before` tokens. -/
def insertAt (s : Scanner) (before : Nat) (t : Token) : Scanner :=
  { s with tokens := s.tokens.insertIdx (s.count - before) t, count := s.count + 1 }

/-- Take a token that is some characters long. -/
def take (s : Scanner) (length : Nat) (t : Token) : Scanner :=
  { s with cursor := s.cursor.drop length }.push t

/-! ## Indentation -/

/-- Whether a column is deeper than the innermost block. -/
def isDeeper (indent : Option Nat) (column : Nat) : Bool :=
  match indent with
  | none => true
  | some n => n < column

/-- Open a block collection at a column that is deeper than the innermost one. -/
def openBlock (s : Scanner) (column before : Nat) (t : Token) : Scanner :=
  if !s.inFlow && isDeeper s.indent column then
    { s with indent := some column, outer := s.indent :: s.outer }.insertAt before t
  else s

/-- Close the blocks in a list of columns that are deeper than a column. -/
def closeFrom (column : Option Nat) (s : Scanner) (indent : Option Nat) :
    List (Option Nat) → Scanner
  | [] => { s with indent, outer := [] }
  | up :: rest =>
    match indent, column with
    | none, _ => { s with indent, outer := up :: rest }
    | some n, some m =>
      if m < n then closeFrom column (s.push .blockEnd) up rest
      else { s with indent, outer := up :: rest }
    | some _, none => closeFrom column (s.push .blockEnd) up rest

/-- Close every block that is deeper than a column, or every block. -/
def closeBlocks (s : Scanner) (column : Option Nat) : Scanner :=
  if s.inFlow then s else closeFrom column s s.indent s.outer

/-! ## Keys -/

/-- Forget where a key may have begun, unless one had to. -/
def dropKey (s : Scanner) : Except Fault Scanner :=
  match s.keyStart with
  | some k => if k.required then .error .missingColon else .ok { s with keyStart := none }
  | none => .ok s

/-- Remember that a key may begin here. -/
def saveKey (s : Scanner) : Except Fault Scanner :=
  if s.keyAllowed then
    match s.dropKey with
    | .error e => .error e
    | .ok s =>
      let required := !s.inFlow && s.indent == some s.column
      .ok { s with keyStart := some ⟨required, s.count, s.cursor.position⟩ }
  else .ok s

/-- The most bytes from the start of a key to its colon. -/
def maxKey : Nat := 1024

/-- Whether a key that began at a place would be over by now. -/
def isStale (now : Position) (k : KeyStart) : Bool :=
  k.position.line < now.line || k.position.offset + maxKey < now.offset

def dropStale (now : Position) : Option KeyStart → Except Fault (Option KeyStart)
  | none => .ok none
  | some k =>
    if isStale now k then
      if k.required then .error .missingColon else .ok none
    else .ok (some k)

/-- Forget every key start that is too far back. -/
def dropStaleKeys (s : Scanner) : Except Fault Scanner := do
  let now := s.cursor.position
  return { s with keyStart := ← dropStale now s.keyStart,
                  outerStarts := ← s.outerStarts.mapM (dropStale now) }

/-! ## White space between tokens -/

/-- Past white space and comments to the next token.  Tabs count as white space only where no key
may begin; a line break lets one begin in a block.  A byte order mark may begin any line. -/
def skipSpace (flow : Bool) (p : Position) (allowed comment : Bool) :
    List Char → Cursor × Bool
  | [] => (⟨p, []⟩, allowed)
  | c :: cs =>
    if isBreak c then skipSpace flow p.newline (allowed || !flow) false cs
    else if comment then skipSpace flow (p.past c) allowed true cs
    else if c = ' ' || (c = '\t' && (flow || !allowed)) then
      skipSpace flow (p.past c) allowed false cs
    else if c = '#' then skipSpace flow (p.past c) allowed true cs
    else if c = '\ufeff' && p.column == 0 then skipSpace flow (p.past c) allowed false cs
    else (⟨p, c :: cs⟩, allowed)

def toToken (s : Scanner) : Scanner :=
  let (cursor, keyAllowed) := skipSpace s.inFlow s.cursor.position s.keyAllowed false s.cursor.rest
  { s with cursor, keyAllowed }

/-! ## Tokens -/

/-- The end of the text closes every block. -/
def atEnd (s : Scanner) : Except Fault Scanner := do
  let s ← (s.closeBlocks none).dropKey
  return { s with keyAllowed := false }.push .streamEnd

def directive (s : Scanner) : Except Fault Scanner := do
  let s ← (s.closeBlocks none).dropKey
  let (t, cursor) ← Directive.read s.cursor
  return { s with cursor, keyAllowed := false }.push t

def marker (s : Scanner) (t : Token) : Except Fault Scanner := do
  let s ← (s.closeBlocks none).dropKey
  return { s with keyAllowed := false }.take 3 t

def flowStart (s : Scanner) (t : Token) : Except Fault Scanner := do
  let s ← s.saveKey
  return { s with keyStart := none, outerStarts := s.keyStart :: s.outerStarts,
                  keyAllowed := true }.take 1 t

def flowEnd (s : Scanner) (t : Token) : Except Fault Scanner := do
  let s ← s.dropKey
  let s := match s.outerStarts with
    | k :: rest => { s with keyStart := k, outerStarts := rest }
    | [] => s
  return { s with keyAllowed := false }.take 1 t

def flowEntry (s : Scanner) : Except Fault Scanner := do
  let s ← s.dropKey
  return { s with keyAllowed := true }.take 1 .flowEntry

def blockEntry (s : Scanner) : Except Fault Scanner := do
  if !s.inFlow && !s.keyAllowed then .error .misplacedEntry
  else
    let s ← (s.openBlock s.column s.count .blockSequenceStart).dropKey
    return { s with keyAllowed := true }.take 1 .blockEntry

def key (s : Scanner) : Except Fault Scanner := do
  if !s.inFlow && !s.keyAllowed then .error .misplacedKey
  else
    let s ← (s.openBlock s.column s.count .blockMappingStart).dropKey
    return { s with keyAllowed := !s.inFlow }.take 1 .key

/-- The colon after a key.  The key may have begun without an indicator. -/
def value (s : Scanner) : Except Fault Scanner :=
  match s.keyStart with
  | some k =>
    let s := (s.insertAt k.before .key).openBlock k.position.column k.before .blockMappingStart
    .ok ({ s with keyStart := none, keyAllowed := false }.take 1 .value)
  | none =>
    if !s.inFlow && !s.keyAllowed then .error .misplacedValue
    else
      let s := s.openBlock s.column s.count .blockMappingStart
      .ok ({ s with keyAllowed := !s.inFlow }.take 1 .value)

def anchor (s : Scanner) (t : String → Token) : Except Fault Scanner := do
  let s ← s.saveKey
  let (name, cursor) ← readAnchor s.cursor
  return { s with cursor, keyAllowed := false }.push (t name)

def tag (s : Scanner) : Except Fault Scanner := do
  let s ← s.saveKey
  let (t, cursor) ← Tag.read s.inFlow s.cursor
  return { s with cursor, keyAllowed := false }.push t

def quoted (s : Scanner) (single : Bool) : Except Fault Scanner := do
  let s ← s.saveKey
  let found ← Quoted.read single s.cursor
  return { s with cursor := found.after, keyAllowed := false }.push (.scalar false found.text)

def plain (s : Scanner) : Except Fault Scanner := do
  let s ← s.saveKey
  let found ← Plain.read s.inFlow ((s.indent.map (· + 1)).getD 0) s.cursor
  return { s with cursor := found.after, keyAllowed := found.newline }.push
    (.scalar true found.text)

def block (s : Scanner) (literal : Bool) : Except Fault Scanner := do
  let s ← s.dropKey
  let found ← Block.read literal s.indent s.cursor
  return { s with cursor := found.after, keyAllowed := true }.push (.scalar false found.text)

/-- The characters that begin something other than a plain scalar. -/
def isIndicator (c : Char) : Bool :=
  ['-', '?', ':', ',', '[', ']', '\x7b', '\x7d', '#', '&', '*', '!', '|', '>', '\'', '"', '%', '@',
    '\x60'].contains c

/-- Whether a plain scalar may begin with a character that goes on as given. -/
def startsPlain (flow : Bool) (c : Char) (rest : List Char) : Bool :=
  !(isBlank c || isBreak c || isIndicator c)
    || (c = '-' && !(rest.head?.map isBlank).getD false)
    || (!flow && (c = '?' || c = ':') && !endsWord rest)

/-- The token at a character. -/
def dispatch (s : Scanner) (c : Char) (rest : List Char) : Except Fault Scanner :=
  let lineStart := s.column == 0
  if lineStart && c = '%' then s.directive
  else if lineStart && isMarker (c :: rest) then
    s.marker (if c = '-' then .documentStart else .documentEnd)
  else if c = '[' then s.flowStart .flowSequenceStart
  else if c = '\x7b' then s.flowStart .flowMappingStart
  else if c = ']' then s.flowEnd .flowSequenceEnd
  else if c = '\x7d' then s.flowEnd .flowMappingEnd
  else if c = ',' then s.flowEntry
  else if c = '-' && endsWord rest then s.blockEntry
  else if c = '?' && (s.inFlow || endsWord rest) then s.key
  else if c = ':' && (s.inFlow || endsWord rest) then s.value
  else if c = '*' then s.anchor .alias
  else if c = '&' then s.anchor .anchor
  else if c = '!' then s.tag
  else if c = '|' && !s.inFlow then s.block true
  else if c = '>' && !s.inFlow then s.block false
  else if c = '\'' then s.quoted true
  else if c = '"' then s.quoted false
  else if startsPlain s.inFlow c rest then s.plain
  else .error .strayCharacter

/-- Read the next token. -/
def next (s : Scanner) : Except Fault Scanner := do
  let s ← s.toToken.dropStaleKeys
  let s := s.closeBlocks (some s.column)
  match s.cursor.rest with
  | [] => s.atEnd
  | c :: rest => s.dispatch c rest

/-- Read tokens up to the end of the text.  Each token but the last takes a character, so there
are no more steps than characters, and one. -/
def run : Nat → Scanner → Except Fault (List Token)
  | 0, _ => .error .strayCharacter
  | fuel + 1, s =>
    match s.next with
    | .error e => .error e
    | .ok s =>
      match s.tokens with
      | .streamEnd :: _ => .ok s.tokens.reverse
      | _ => run fuel s

end Scanner

/-- The tokens of a text. -/
def Token.ofText (text : String) : Except Fault (List Token) :=
  match prepare text with
  | .error e => .error e
  | .ok cs => Scanner.run (cs.length + 1) (.ofChars cs)

end SchemaLoom.Yaml
