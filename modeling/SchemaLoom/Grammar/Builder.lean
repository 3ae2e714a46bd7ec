import SchemaLoom.Grammar.Basic

/-!
# Building a grammar

The nodes of a grammar refer to each other in cycles.  So they are built in two steps: first every
node is declared with its kind, which gives its number, and then each is told where it leads.

- `GrammarBuilder.declare`, `.map`, `.object`, `.schema`: the steps.  Telling a node again replaces
  what it was told before, and its kind stays.
- `GrammarBuilder.build`: the grammar, or the kind of the first declared node that was told
  nothing.

## What is left out

The numbers that a builder is told about are those that it gave.  One that it did not give, as that
of another builder may be, changes nothing here.
-/

namespace SchemaLoom

/-- A node under construction. -/
inductive Slot where
  | declared (kind : Kind)
  | ready (node : Node)
deriving DecidableEq, Repr

/-- The kind that the node has or will have. -/
def Slot.kind : Slot → Kind
  | .declared kind => kind
  | .ready node => node.kind

structure GrammarBuilder where
  slots : List Slot

namespace GrammarBuilder

/-- A builder that holds the data node. -/
def new : GrammarBuilder := ⟨[.ready .data]⟩

/-- Declare a node. -/
def declare (b : GrammarBuilder) (kind : Kind) : NodeId × GrammarBuilder :=
  (⟨b.slots.length⟩, ⟨b.slots ++ [.declared kind]⟩)

/-- Tell a declared node where it leads, given its kind. -/
def configure (b : GrammarBuilder) (id : NodeId) (node : Kind → Node) : GrammarBuilder :=
  ⟨b.slots.modify id.index fun slot => .ready (node slot.kind)⟩

/-- Every key leads to one place. -/
def map (b : GrammarBuilder) (id : NodeId) (child : Transition) : GrammarBuilder :=
  b.configure id fun kind => .map kind child

/-- The keys of a table lead somewhere, and all others into data. -/
def object (b : GrammarBuilder) (id : NodeId) (table : Table) : GrammarBuilder :=
  b.configure id fun kind => .object kind table

/-- Keywords lead somewhere, extensions into data, and all other keys to one place. -/
def schema (b : GrammarBuilder) (id : NodeId) (keywords : Table) (fallback : NodeId) :
    GrammarBuilder :=
  b.configure id fun kind => .schema kind keywords fallback

/-- The nodes of the slots, or the kind of the first slot that was told nothing. -/
def nodes : List Slot → Except Kind (List Node)
  | [] => .ok []
  | .declared kind :: _ => .error kind
  | .ready node :: rest =>
    match nodes rest with
    | .ok found => .ok (node :: found)
    | .error kind => .error kind

/-- The grammar with the given root, or the kind of the first declared node that was told
nothing. -/
def build (b : GrammarBuilder) (root : NodeId) : Except Kind Grammar :=
  match nodes b.slots with
  | .ok found => .ok ⟨found, root⟩
  | .error kind => .error kind

/-- The message about a node that was told nothing. -/
def unconfiguredMessage (kind : Kind) : String :=
  "grammar node `" ++ kind.name ++ "` was never configured"

end GrammarBuilder

end SchemaLoom
