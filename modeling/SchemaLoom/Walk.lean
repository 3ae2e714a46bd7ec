import SchemaLoom.Grammar.Basic
import SchemaLoom.Location

/-!
# Walking through documents

A walk meets every value of some documents with its location and the kind of its place, a value
before what it holds, members and items in their order.  It keeps a stack of the values that it has
met the parents of, and begins the next document only when the stack is empty.

- `Walk.next?`: the next step of a walk, and the walk after it.
- `walk`: all steps of a walk through some documents.
- `walkAt`: the steps through one document, listed by recursion on the document.
-/

namespace SchemaLoom

/-- A value met on the way through a document. -/
structure Step where
  value : Document
  kind : Kind
  location : Location
deriving Repr

/-! ## The walk, step by step -/

/-- A value that a walk still has to come to. -/
structure Waiting where
  value : Document
  node : NodeId
  location : Location

namespace Waiting

/-- The step that a value has when its turn comes. -/
def step (g : Grammar) (x : Waiting) : Step :=
  ⟨x.value, g.kind x.node, x.location⟩

/-- The parts of a value, in their order.  Each key of an object leads to a node of its own; the
items of an array are all at the array's node. -/
def parts (g : Grammar) (x : Waiting) : List Waiting :=
  match x.value with
  | .obj members =>
    members.map fun m => ⟨m.2, (g.child x.node m.1).node, x.location.push m.1⟩
  | .arr items => items.zipIdx.map fun p => ⟨p.1, x.node, x.location.pushIndex p.2⟩
  | _ => []

end Waiting

/-- A walk on its way: the values that it comes to next, the first one on top, and the documents
that it has not begun. -/
structure Walk where
  stack : List Waiting
  trees : List Document

namespace Walk

def start (trees : List Document) : Walk := ⟨[], trees⟩

/-- The walk with a value on top of its stack: when the stack is empty, the next document is
begun. -/
def refill (g : Grammar) : Walk → Walk
  | ⟨[], d :: trees⟩ => ⟨[⟨d, g.root, .root⟩], trees⟩
  | w => w

/-- The next step, if there is one, and the walk after it.  The value on top gives way to its
parts. -/
def next? (g : Grammar) (w : Walk) : Option (Step × Walk) :=
  match w.refill g with
  | ⟨[], _⟩ => none
  | ⟨x :: rest, trees⟩ => some (x.step g, ⟨x.parts g ++ rest, trees⟩)

/-- The first steps of a walk, as many as are asked for or as there are. -/
def take (g : Grammar) : Nat → Walk → List Step
  | 0, _ => []
  | n + 1, w =>
    match w.next? g with
    | none => []
    | some (step, w) => step :: take g n w

end Walk

/-- The steps through some documents; there are as many as the documents have values. -/
def walk (g : Grammar) (trees : List Document) : List Step :=
  (Walk.start trees).take g (Document.sizeItems trees)

/-! ## The steps through one document -/

mutual

/-- The steps through a document at a node. -/
def walkAt (g : Grammar) (node : NodeId) (loc : Location) : Document → List Step
  | .obj members => ⟨.obj members, g.kind node, loc⟩ :: walkMembers g node loc members
  | .arr items => ⟨.arr items, g.kind node, loc⟩ :: walkItems g node loc 0 items
  | .null => [⟨.null, g.kind node, loc⟩]
  | .bool b => [⟨.bool b, g.kind node, loc⟩]
  | .num n => [⟨.num n, g.kind node, loc⟩]
  | .str s => [⟨.str s, g.kind node, loc⟩]

/-- The steps through the members of an object; each key leads to a node of its own. -/
def walkMembers (g : Grammar) (node : NodeId) (loc : Location) :
    List (String × Document) → List Step
  | [] => []
  | (k, v) :: rest =>
    walkAt g (g.child node k).node (loc.push k) v ++ walkMembers g node loc rest

/-- The steps through the items of an array from an index on; all are at the array's node. -/
def walkItems (g : Grammar) (node : NodeId) (loc : Location) (index : Nat) :
    List Document → List Step
  | [] => []
  | d :: rest =>
    walkAt g node (loc.pushIndex index) d ++ walkItems g node loc (index + 1) rest

end

end SchemaLoom
