import SchemaLoom.Grammar.Behavior
import SchemaLoom.Grammar.Kind

/-!
# Grammars

A grammar says what is found where in a document.  It is a graph: each node stands for the places
of one kind, and says for every key where the member under that key leads and which behavior holds
there.  The items of an array are at the node of the array.  Node 0 is the data node: nothing below
it is interpreted, and it never leads anywhere else.

- `Node.child`, `Grammar.child`: the transition under a key.
- `Grammar.follow`: the transition at the end of a list of keys.

## What is left out

The number of a node comes from a builder, so a grammar has a node of every number in it.  A number
that is out of range means data here, so that every place has a node.
-/

namespace SchemaLoom

/-- A node of a grammar, by its number. -/
structure NodeId where
  index : Nat
deriving DecidableEq, Repr, Inhabited

/-- The data node. -/
def NodeId.data : NodeId := ⟨0⟩

/-- Where a key leads: the node there and the behavior on the way. -/
structure Transition where
  node : NodeId
  behavior : Behavior
deriving DecidableEq, Repr, Inhabited

/-- Into the data node, with no behavior of its own. -/
def Transition.data : Transition := ⟨.data, .default⟩

/-- The transitions of the keys that a node knows. -/
abbrev Table := List (String × Transition)

namespace Table

/-- The transition of a key; of two entries for one key the later one counts. -/
def get? (key : String) : Table → Option Transition
  | [] => none
  | (k, t) :: rest =>
    match get? key rest with
    | some found => some found
    | none => if k = key then some t else none

end Table

/-- How a node leads on. -/
inductive Node where
  /-- Free data. -/
  | data
  /-- A map: every key leads to one place. -/
  | map (kind : Kind) (child : Transition)
  /-- An object with known keys; any other leads into data. -/
  | object (kind : Kind) (table : Table)
  /-- A schema: keywords it knows, extensions that lead into data, and a place for the rest. -/
  | schema (kind : Kind) (keywords : Table) (fallback : NodeId)
deriving DecidableEq, Repr, Inhabited

namespace Node

def kind : Node → Kind
  | .data => .data
  | .map kind _ => kind
  | .object kind _ => kind
  | .schema kind _ _ => kind

/-- Whether nothing below the node is interpreted. -/
def isOpaque : Node → Bool
  | .data => true
  | _ => false

/-- Whether a key names an extension. -/
def isExtension (key : String) : Bool :=
  match key.toList with
  | 'x' :: '-' :: _ => true
  | _ => false

/-- The transition under a key. -/
def child (key : String) : Node → Transition
  | .data => .data
  | .map _ child => child
  | .object _ table => (Table.get? key table).getD .data
  | .schema _ keywords fallback =>
    if isExtension key then .data
    else (Table.get? key keywords).getD ⟨fallback, .default⟩

end Node

/-- The nodes of a grammar and the one at the root of a document. -/
structure Grammar where
  nodes : List Node
  root : NodeId
deriving DecidableEq, Repr

namespace Grammar

/-- The node of a number; a number out of range means data. -/
def node (g : Grammar) (id : NodeId) : Node :=
  g.nodes[id.index]?.getD .data

def kind (g : Grammar) (id : NodeId) : Kind :=
  (g.node id).kind

def isOpaque (g : Grammar) (id : NodeId) : Bool :=
  (g.node id).isOpaque

def child (g : Grammar) (id : NodeId) (key : String) : Transition :=
  (g.node id).child key

/-- The transition into the root. -/
def entry (g : Grammar) : Transition :=
  ⟨g.root, .default⟩

/-- The transition at the end of a list of keys that starts at a transition. -/
def follow (g : Grammar) (start : Transition) (keys : List String) : Transition :=
  keys.foldl (fun t key => g.child t.node key) start

end Grammar

end SchemaLoom
