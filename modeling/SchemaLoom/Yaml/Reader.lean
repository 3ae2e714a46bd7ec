import SchemaLoom.Yaml.Node
import SchemaLoom.Yaml.Scalar
import SchemaLoom.Yaml.Token.Stream

/-!
# Documents from YAML

`Document.ofYaml` reads the one document of a text; a text without a document is null.

Keys are strings, as they are written.  Of a key that comes again the first occurrence gives the
place and the last one the value.  Aliases stand for copies of what they refer to.  Collections may
be nested 128 levels deep, and a document may follow a hundred aliases for each of its marks.
-/

namespace SchemaLoom

namespace Yaml

namespace Node

/-- What is needed to follow aliases: the nodes with anchors, and the count that is allowed. -/
structure Aliases where
  targets : List (Nat × Node)
  limit : Nat

/-- The node of an anchor's number; the last one counts. -/
def Aliases.target? (a : Aliases) (number : Nat) : Option Node :=
  a.targets.reverse.lookup number

/-- Values are read along with the count of aliases that were followed. -/
abbrev Compose := StateT Nat (Except Fault)

def refuse (f : Fault) : Compose α := StateT.lift (.error f)

/-- The node that a node stands for. -/
def follow (a : Aliases) : Node → Compose Node
  | .alias number => do
    let used := (← get) + 1
    set used
    if a.limit < used then refuse .tooManyAliases
    else
      match a.target? number with
      | some n => return n
      | none => refuse .unknownAnchor
  | n => return n

/-- The text of a key. -/
def keyText (a : Aliases) (n : Node) : Compose String := do
  match ← follow a n with
  | .scalar _ _ _ text => return text
  | _ => refuse .keyIsNoScalar

/-- Whether a tag begins as those do that only their author knows. -/
def beginsPrivate (tag : Octets) : Bool :=
  tag.head? == some '!'.toUInt8

/-- Whether a tag is one that only its author knows, which its text must say. -/
def isPrivateTag (tag : Option Octets) : Bool :=
  tag.any fun t => beginsPrivate t && t.text?.isSome

/-- The value of a scalar.  A tag that is no text says nothing when it begins as a private one, and
makes the scalar a string otherwise. -/
def scalarValue (tag : Option Octets) (plain : Bool) (text : String) :
    Except Fault Document :=
  let untagged := if plain then Scalar.resolve text else .ok (.str text)
  match tag with
  | none => untagged
  | some t =>
    match t.text? with
    | some name => Scalar.resolveTagged name text
    | none => if beginsPrivate t then untagged else .ok (.str text)

/-- The value of a node that holds collections at most so many levels deep. -/
def value (a : Aliases) : Nat → Node → Compose Document
  | depth, n => do
    match ← follow a n with
    | .alias _ => refuse .unknownAnchor
    | .scalar _ tag plain text =>
      if isPrivateTag tag then refuse .unknownTag
      else StateT.lift (scalarValue tag plain text)
    | .sequence _ tag items =>
      if isPrivateTag tag then refuse .unknownTag
      else
        match depth with
        | 0 => refuse .tooDeep
        | depth + 1 => return .arr (← items.mapM fun item => value a depth item)
    | .mapping _ tag entries =>
      if isPrivateTag tag then refuse .unknownTag
      else
        match depth with
        | 0 => refuse .tooDeep
        | depth + 1 =>
          let pairs ← entries.mapM fun e => do
            let key ← keyText a e.1
            return (key, ← value a depth e.2)
          return .obj (Members.ofPairs pairs)

end Node

/-- The levels of nesting that a document may have. -/
def maxDepth : Nat := 128

/-- The aliases that a document may follow for each of its marks. -/
def aliasesPerMark : Nat := 100

end Yaml

open Yaml in
/-- The document of a YAML text. -/
def Document.ofYaml (text : String) : Except Fault Document := do
  let tokens ← Token.ofText text
  match ← Node.ofTokens tokens with
  | none => return .null
  | some n =>
    let (d, _) ← (Node.value ⟨n.anchored, aliasesPerMark * n.size⟩ maxDepth n).run 0
    return d

end SchemaLoom
