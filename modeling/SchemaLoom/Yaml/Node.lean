import SchemaLoom.Yaml.Token.Basic

/-!
# The nodes of a YAML document

- `Node`: scalars, sequences, mappings, and aliases of them.
- `Node.ofTokens`: the node of a text's one document; `none` for a text without a document.

An anchor is held as a number.  A name that is new takes the count of the names before it, and so
does a name that comes again; an alias refers to the number that its name has at that point.  Of
several nodes with one number the last one counts.
-/

namespace SchemaLoom.Yaml

inductive Node where
  | alias (number : Nat)
  | scalar (anchor : Option Nat) (tag : Option Octets) (plain : Bool) (text : String)
  | sequence (anchor : Option Nat) (tag : Option Octets) (items : List Node)
  | mapping (anchor : Option Nat) (tag : Option Octets) (entries : List (Node × Node))
deriving Repr, Inhabited

namespace Node

/-- A scalar that is not written: plain and empty. -/
def missing : Node := .scalar none none true ""

mutual

/-- The count of marks that a node is made of: one for a scalar, and two for a collection. -/
def size : Node → Nat
  | .alias _ => 1
  | .scalar _ _ _ _ => 1
  | .sequence _ _ items => 2 + sizeItems items
  | .mapping _ _ entries => 2 + sizeEntries entries

def sizeItems : List Node → Nat
  | [] => 0
  | n :: ns => size n + sizeItems ns

def sizeEntries : List (Node × Node) → Nat
  | [] => 0
  | (k, v) :: rest => size k + size v + sizeEntries rest

end

mutual

/-- The nodes below a node that have anchors, a node before what it holds. -/
def anchored : Node → List (Nat × Node)
  | .alias _ => []
  | .scalar a t p x => (a.map (·, .scalar a t p x)).toList
  | .sequence a t items => (a.map (·, .sequence a t items)).toList ++ anchoredItems items
  | .mapping a t entries => (a.map (·, .mapping a t entries)).toList ++ anchoredEntries entries

def anchoredItems : List Node → List (Nat × Node)
  | [] => []
  | n :: ns => anchored n ++ anchoredItems ns

def anchoredEntries : List (Node × Node) → List (Nat × Node)
  | [] => []
  | (k, v) :: rest => anchored k ++ anchored v ++ anchoredEntries rest

end

/-! ## From tokens -/

/-- What is known while a document is read. -/
structure Reader where
  tokens : List Token
  /-- The numbers of the anchors' names. -/
  anchors : List (String × Nat)
  /-- The expansions of tag handles. -/
  handles : List (String × Octets)

abbrev Read := StateT Reader (Except Fault)

def fail (f : Fault) : Read α := StateT.lift (.error f)

/-- The next token. -/
def peek : Read Token := do
  return (← get).tokens.headD .streamEnd

/-- Past the next token. -/
def skip : Read Unit := modify fun r => { r with tokens := r.tokens.tail }

/-- Give an anchor's name its number. -/
def declareAnchor (name : String) : Read Nat := do
  let r ← get
  let number := r.anchors.length
  set (Reader.mk r.tokens ((r.anchors.filter fun a => a.1 != name) ++ [(name, number)]) r.handles)
  return number

def aliasNumber (name : String) : Read Nat := do
  match (← get).anchors.lookup name with
  | some n => return n
  | none => fail .unknownAnchor

/-- The whole of a tag. -/
def expandTag (handle : String) (suffix : Octets) : Read Octets := do
  if handle = "" then return suffix
  match (← get).handles.lookup handle with
  | some start => return start ++ suffix
  | none => fail .unknownHandle

/-- The anchor and the tag of a node, in either order. -/
def properties : Read (Option Nat × Option Octets) := do
  let anchor : Read (Option Nat) := do
    match ← peek with
    | .anchor name => do
      skip
      return some (← declareAnchor name)
    | _ => return none
  let tag : Read (Option Octets) := do
    match ← peek with
    | .tag handle suffix => do
      skip
      return some (← expandTag handle suffix)
    | _ => return none
  match ← peek with
  | .anchor _ => do
    let a ← anchor
    return (a, ← tag)
  | _ => do
    let t ← tag
    return (← anchor, t)

/-- Tokens after which an entry of a block mapping has no node. -/
def endsEntry : Token → Bool
  | .key | .value | .blockEnd => true
  | _ => false

def endsFlowItem : Token → Bool
  | .value | .flowEntry | .flowSequenceEnd => true
  | _ => false

def endsFlowEntry : Token → Bool
  | .value | .flowEntry | .flowMappingEnd => true
  | _ => false

mutual

/-- A node.  `block` says whether it may be a block collection, and `indentless` whether it may be
a block sequence at the indentation of the mapping around it. -/
def node (fuel : Nat) (block indentless : Bool) : Read Node :=
  match fuel with
  | 0 => fail .unexpectedToken
  | fuel + 1 => do
    match ← peek with
    | .alias name => do
      skip
      return .alias (← aliasNumber name)
    | _ =>
      let (anchor, tag) ← properties
      match ← peek with
      | .scalar plain text => do
        skip
        return .scalar anchor tag plain text
      | .flowSequenceStart => do
        skip
        return .sequence anchor tag (← flowItems fuel true)
      | .flowMappingStart => do
        skip
        return .mapping anchor tag (← flowEntries fuel true)
      | t =>
        if t = .blockEntry ∧ indentless then
          return .sequence anchor tag (← blockItems fuel true)
        else if t = .blockSequenceStart ∧ block then do
          skip
          return .sequence anchor tag (← blockItems fuel false)
        else if t = .blockMappingStart ∧ block then do
          skip
          return .mapping anchor tag (← blockEntries fuel)
        else if anchor.isSome || tag.isSome then return .scalar anchor tag true ""
        else fail .unexpectedToken

/-- A node unless one of some tokens comes, which leaves it out. -/
def nodeUnless (fuel : Nat) (ends : Token → Bool) (block indentless : Bool) : Read Node :=
  match fuel with
  | 0 => fail .unexpectedToken
  | fuel + 1 => do
    if ends (← peek) then return missing else node fuel block indentless

/-- The items of a block sequence.  One without indentation of its own ends where its dashes end. -/
def blockItems (fuel : Nat) (indentless : Bool) : Read (List Node) :=
  match fuel with
  | 0 => fail .unexpectedToken
  | fuel + 1 => do
    match ← peek with
    | .blockEntry => do
      skip
      let ends (t : Token) : Bool := match t with
        | .blockEntry | .blockEnd => true
        | .key | .value => indentless
        | _ => false
      let item ← nodeUnless fuel ends true false
      return item :: (← blockItems fuel indentless)
    | t =>
      if indentless then return []
      else if t = .blockEnd then do
        skip
        return []
      else fail .unexpectedToken

/-- The entries of a block mapping. -/
def blockEntries (fuel : Nat) : Read (List (Node × Node)) :=
  match fuel with
  | 0 => fail .unexpectedToken
  | fuel + 1 => do
    match ← peek with
    | .key => do
      skip
      let key ← nodeUnless fuel endsEntry true true
      let value ← match ← peek with
        | .value => do
          skip
          nodeUnless fuel endsEntry true true
        | _ => pure missing
      return (key, value) :: (← blockEntries fuel)
    | .blockEnd => do
      skip
      return []
    | _ => fail .unexpectedToken

/-- The items of a flow sequence from one on.  An item may be a mapping of one entry. -/
def flowItems (fuel : Nat) (first : Bool) : Read (List Node) :=
  match fuel with
  | 0 => fail .unexpectedToken
  | fuel + 1 => do
    let t ← peek
    if t ≠ .flowSequenceEnd ∧ ¬ first then
      if t = .flowEntry then skip else fail .unexpectedToken
    match ← peek with
    | .flowSequenceEnd => do
      skip
      return []
    | .key => do
      skip
      let pair ← flowPair fuel
      return .mapping none none [pair] :: (← flowItems fuel false)
    | _ => do
      let item ← node fuel false false
      return item :: (← flowItems fuel false)

/-- The one entry of a mapping that is an item of a flow sequence.  A token that stands in the place
of the key is skipped. -/
def flowPair (fuel : Nat) : Read (Node × Node) :=
  match fuel with
  | 0 => fail .unexpectedToken
  | fuel + 1 => do
    let key ←
      if endsFlowItem (← peek) then do
        skip
        pure missing
      else node fuel false false
    match ← peek with
    | .value => do
      skip
      let ends (t : Token) : Bool := t = .flowEntry || t = .flowSequenceEnd
      return (key, ← nodeUnless fuel ends false false)
    | _ => return (key, missing)

/-- The entries of a flow mapping from one on. -/
def flowEntries (fuel : Nat) (first : Bool) : Read (List (Node × Node)) :=
  match fuel with
  | 0 => fail .unexpectedToken
  | fuel + 1 => do
    let t ← peek
    if t ≠ .flowMappingEnd ∧ ¬ first then
      if t = .flowEntry then skip else fail .unexpectedToken
    match ← peek with
    | .flowMappingEnd => do
      skip
      return []
    | .key => do
      skip
      let key ← nodeUnless fuel endsFlowEntry false false
      let value ← match ← peek with
        | .value => do
          skip
          let ends (t : Token) : Bool := t = .flowEntry || t = .flowMappingEnd
          nodeUnless fuel ends false false
        | _ => pure missing
      return (key, value) :: (← flowEntries fuel false)
    | _ => do
      let key ← node fuel false false
      return (key, missing) :: (← flowEntries fuel false)

end

/-! ## Documents -/

/-- The directives before a document: at most one version, and no handle twice. -/
def directives (version : Bool) (own : List (String × Octets)) : List Token →
    Except Fault (List (String × Octets) × List Token)
  | .versionDirective major minor :: rest =>
    if version || major ≠ 1 || (minor ≠ 1 && minor ≠ 2) then .error .badDirective
    else directives true own rest
  | .tagDirective handle expansion :: rest =>
    if (own.lookup handle).isSome then .error .badDirective
    else directives version (own ++ [(handle, expansion)]) rest
  | rest => .ok (own, rest)

/-- The handles that every document knows. -/
def commonHandles : List (String × Octets) :=
  [("!", .ofChars "!".toList), ("!!", .ofChars "tag:yaml.org,2002:".toList)]

/-- Tokens after which a document that has begun has no node. -/
def endsDocument : Token → Bool
  | .versionDirective .. | .tagDirective .. | .documentStart | .documentEnd | .streamEnd => true
  | _ => false

/-- The node of a document that begins with a marker or directives, or without them. -/
def document (fuel : Nat) : Read Node := do
  match ← peek with
  | .versionDirective .. | .tagDirective .. | .documentStart => do
    let r ← get
    let (own, rest) ← StateT.lift (directives false [] r.tokens)
    set (Reader.mk rest r.anchors (own ++ commonHandles))
    match ← peek with
    | .documentStart => do
      skip
      nodeUnless fuel endsDocument true false
    | _ => fail .unexpectedToken
  | _ => node fuel true false

/-- The one document of a text, if it has any. -/
def documents (fuel : Nat) : Read (Option Node) := do
  if (← peek) = .streamEnd then return none
  let found ← document fuel
  modify fun r => { r with tokens := r.tokens.dropWhile (· == .documentEnd) }
  if (← peek) = .streamEnd then return some found
  else fail .moreDocuments

/-- The node of the one document of some tokens.  Two calls at most come between two tokens, which
bounds the recursion. -/
def ofTokens (tokens : List Token) : Except Fault (Option Node) :=
  match (documents (4 * tokens.length + 8)).run ⟨tokens, [], commonHandles⟩ with
  | .ok (found, _) => .ok found
  | .error e => .error e

end Node

end SchemaLoom.Yaml
