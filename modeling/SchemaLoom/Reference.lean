import SchemaLoom.Decimal.Numeral
import SchemaLoom.SortedMap

/-!
# References and identities

A document has an identity, `scheme://module/resource/vN`.  A reference is the text by which one
document points into another or into itself.

- `Identity.parse?`, `Identity.text`: identities and their text.
- `Reference.kind`: a reference is local, relative to a sibling file, qualified by an identity, or
  anything else.
- `Reference.normalize`: the reference as it stands in the merged output of a scheme.

The parts of an identity are made of disjoint characters from their separators, so each part is the
longest run of its own characters.
-/

namespace SchemaLoom

/-- The identity of a document. -/
structure Identity where
  scheme : String
  moduleName : String
  resource : String
  version : Nat
deriving DecidableEq, Repr

namespace Identity

/-- Identities are ordered by scheme, module and resource, and then by the version as a number. -/
instance : Ord Identity :=
  ⟨compareLex (compareOn scheme)
    (compareLex (compareOn moduleName) (compareLex (compareOn resource) (compareOn version)))⟩

instance : Std.TransOrd Identity :=
  inferInstanceAs (Std.TransCmp (compareLex (compareOn scheme)
    (compareLex (compareOn moduleName) (compareLex (compareOn resource) (compareOn version)))))

instance : Std.LawfulEqOrd Identity where
  compare_self := Std.ReflCmp.compare_self
  eq_of_compare {a b} h := by
    have h : compareLex (compareOn scheme) (compareLex (compareOn moduleName)
      (compareLex (compareOn resource) (compareOn version))) a b = .eq := h
    simp only [compareLex_eq_eq, compareOn, Std.LawfulEqCmp.compare_eq_iff_eq] at h
    cases a; cases b
    simpa using h

/-- The text of an identity. -/
def text (id : Identity) : String :=
  id.scheme ++ "://" ++ id.moduleName ++ "/" ++ id.resource ++ "/v" ++ toString id.version

end Identity

/-- The scheme in use, and the extension of the files its references point to. -/
structure Scheme where
  name : String
  extension : String
deriving DecidableEq, Repr

namespace Scheme

def defaultName : String := "forge"

def defaultExtension : String := "openapi.yaml"

def ofName (name : String) : Scheme := ⟨name, defaultExtension⟩

def default : Scheme := ofName defaultName

end Scheme

/-- What a reference points to. -/
inductive ReferenceKind where
  /-- The same document. -/
  | inside
  /-- A sibling file. -/
  | relative
  /-- The document of an identity, and a place in it. -/
  | qualified (identity : Identity) (fragment : Option String)
  /-- Anything else. -/
  | other
deriving DecidableEq, Repr

namespace ReferenceKind

/-- An ASCII letter. -/
def isLetter (c : Char) : Bool := c.isAlpha

/-- A character of a scheme after its first letter. -/
def isSchemeChar (c : Char) : Bool := c.isAlphanum || c == '-'

/-- A character of the name of a module or a resource. -/
def isNameChar (c : Char) : Bool := c.isAlphanum || c == '_' || c == '-'

/-- The text after a given beginning. -/
def after? : List Char → List Char → Option (List Char)
  | [], cs => some cs
  | p :: ps, c :: cs => if p = c then after? ps cs else none
  | _ :: _, [] => none

/-- The longest run of some characters at the head of a text, if it is not empty. -/
def run? (p : Char → Bool) (cs : List Char) : Option (String × List Char) :=
  let run := cs.takeWhile p
  if run.isEmpty then none else some (String.ofList run, cs.dropWhile p)

/-- A fragment: nothing, or a number sign and text on one line. -/
def fragment? : List Char → Option (Option String)
  | [] => some none
  | '#' :: rest => if rest.contains '\n' then none else some (some (String.ofList rest))
  | _ :: _ => none

/-- The version of an identity: decimal digits whose number fits into 64 bits. -/
def version? (cs : List Char) : Option (Nat × List Char) :=
  ((Numeral.value? 10 (cs.takeWhile Char.isDigit)).filter (· < Numeral.wordLimit)).map
    (·, cs.dropWhile Char.isDigit)

/-- The identity and the fragment of a qualified reference. -/
def qualified? (cs : List Char) : Option (Identity × Option String) :=
  if (cs.head?.map isLetter).getD false then do
    let (scheme, rest) ← run? isSchemeChar cs
    let rest ← after? [':', '/', '/'] rest
    let (moduleName, rest) ← run? isNameChar rest
    let rest ← after? ['/'] rest
    let (resource, rest) ← run? isNameChar rest
    let rest ← after? ['/', 'v'] rest
    let (version, rest) ← version? rest
    let fragment ← fragment? rest
    return (⟨scheme, moduleName, resource, version⟩, fragment)
  else none

/-- The kind of a reference. -/
def ofChars : List Char → ReferenceKind
  | '#' :: _ => .inside
  | '.' :: '/' :: _ => .relative
  | cs =>
    match qualified? cs with
    | some (identity, fragment) => .qualified identity fragment
    | none => .other

end ReferenceKind

/-- The identity of a text; there must be no fragment. -/
def Identity.parse? (uri : String) : Option Identity :=
  match ReferenceKind.ofChars uri.toList with
  | .qualified identity none => some identity
  | _ => none

/-- A reference, by its text. -/
structure Reference where
  raw : String
deriving DecidableEq, Repr

namespace Reference

def kind (r : Reference) : ReferenceKind :=
  ReferenceKind.ofChars r.raw.toList

def isLocal (r : Reference) : Bool := r.kind == .inside

def isRelative (r : Reference) : Bool := r.kind == .relative

/-- The text from the first number sign on. -/
def tail? (r : Reference) : Option (List Char) :=
  match r.raw.toList.dropWhile (· != '#') with
  | [] => none
  | cs => some cs

/-- Whether a reference names a sibling file and no place in it. -/
def isBare (r : Reference) : Bool := r.isRelative && r.tail?.isNone

/-- The text after the first number sign. -/
def fragment? (r : Reference) : Option String :=
  r.tail?.map fun cs => String.ofList cs.tail

/-- The file that the output of a module is written to, next to the other modules. -/
def moduleFile (scheme : Scheme) (moduleName : String) : String :=
  "./" ++ moduleName ++ "." ++ scheme.extension

/-- The reference as it stands in the merged output of a scheme.  A relative reference keeps its
fragment alone, since the file it names becomes part of the output; a reference under the scheme
points to the output file of its module; every other reference stays. -/
def normalize (r : Reference) (scheme : Scheme) : String :=
  match r.kind with
  | .inside => r.raw
  | .other => r.raw
  | .relative =>
    match r.tail? with
    | some cs => String.ofList cs
    | none => r.raw
  | .qualified identity fragment =>
    if identity.scheme = scheme.name then
      let file := moduleFile scheme identity.moduleName
      match fragment with
      | none => file
      | some text => if text = "" then file else file ++ "#" ++ text
    else r.raw

end Reference

end SchemaLoom
