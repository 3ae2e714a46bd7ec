import SchemaLoom.Grammar.Basic
import SchemaLoom.Reference

/-!
# Normalization

A document is brought into the form in which it is merged and compared: references are adjusted
for the output of a scheme, and arrays that are sets are sorted.

- `normalize`: a document from its root.
- `normalizeAt`: a document at a place of a grammar.
- `bareReferences`: the references that cannot be adjusted, since they name a file alone.

Under `$ref` a string is a reference and anything else is left alone, except in data, where the key
has no meaning.  The items of an array are normalized before they are sorted.
-/

namespace SchemaLoom

/-- The key that holds a reference. -/
def refKey : String := "$ref"

/-- The value under `$ref`: a string is a reference, anything else stays. -/
def adjustReference (scheme : Scheme) : Document → Document
  | .str raw => .str (Reference.normalize ⟨raw⟩ scheme)
  | d => d

/-- The items of an array in the order that a behavior asks for. -/
def arrange (behavior : Behavior) (items : List Document) : List Document :=
  match behavior.sortKey with
  | some k => sortByKey k.key items
  | none => items

mutual

/-- The normal form of a document at a place of a grammar. -/
def normalizeAt (g : Grammar) (scheme : Scheme) (t : Transition) : Document → Document
  | .obj members => .obj (normalizeMembers g scheme t.node members)
  | .arr items => .arr (arrange t.behavior (normalizeItems g scheme t items))
  | .null => .null
  | .bool b => .bool b
  | .num n => .num n
  | .str s => .str s

/-- The normal forms of the items of an array; all of them are at its place. -/
def normalizeItems (g : Grammar) (scheme : Scheme) (t : Transition) :
    List Document → List Document
  | [] => []
  | d :: ds => normalizeAt g scheme t d :: normalizeItems g scheme t ds

/-- The members of an object with their normal forms. -/
def normalizeMembers (g : Grammar) (scheme : Scheme) (node : NodeId) :
    List (String × Document) → Members
  | [] => []
  | (k, v) :: ms =>
    (k, if k = refKey ∧ g.isOpaque node = false then adjustReference scheme v
        else normalizeAt g scheme (g.child node k) v)
      :: normalizeMembers g scheme node ms

end

/-- The normal form of a document. -/
def normalize (g : Grammar) (scheme : Scheme) (d : Document) : Document :=
  normalizeAt g scheme g.entry d

/-! ## References that name a file alone -/

/-- The value under `$ref` if it is such a reference. -/
def bareReference : Document → List Reference
  | .str raw => if Reference.isBare ⟨raw⟩ then [⟨raw⟩] else []
  | _ => []

mutual

/-- The references that name a file alone, at a place of a grammar. -/
def bareReferencesAt (g : Grammar) (t : Transition) : Document → List Reference
  | .obj members => bareReferencesIn g t.node members
  | .arr items => bareReferencesAmong g t items
  | _ => []

def bareReferencesAmong (g : Grammar) (t : Transition) : List Document → List Reference
  | [] => []
  | d :: ds => bareReferencesAt g t d ++ bareReferencesAmong g t ds

def bareReferencesIn (g : Grammar) (node : NodeId) : List (String × Document) → List Reference
  | [] => []
  | (k, v) :: ms =>
    (if k = refKey ∧ g.isOpaque node = false then bareReference v
      else bareReferencesAt g (g.child node k) v) ++ bareReferencesIn g node ms

end

/-- The references of a document that name a file alone, in the document's order. -/
def bareReferences (g : Grammar) (d : Document) : List Reference :=
  bareReferencesAt g g.entry d

end SchemaLoom
