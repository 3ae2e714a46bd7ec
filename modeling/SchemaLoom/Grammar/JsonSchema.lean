import SchemaLoom.Grammar.Basic

/-!
# The grammar of JSON Schema

A schema holds sub-schemas under its keywords.  Some keywords hold instance data, in which nothing
is interpreted; some hold arrays whose order means nothing.  The entries of `$defs` and
`definitions` at the root of a document have names of their own and are the named entry points.

- `JsonSchema.nodes`: the nodes that every grammar with schemas in it begins with.
- `Grammar.jsonSchema`: the grammar of a document that is a schema.
-/

namespace SchemaLoom

namespace Transition

/-- To a node, its arrays ordered. -/
def plain (node : NodeId) : Transition := ⟨node, .default⟩

/-- To a node whose arrays are sets of strings. -/
def strings (node : NodeId) : Transition := ⟨node, .sorted .str⟩

/-- To a node whose arrays are sets of values. -/
def values (node : NodeId) : Transition := ⟨node, .sorted .canonical⟩

/-- To a node whose arrays are sets of objects known by two fields. -/
def parameters (node : NodeId) : Transition := ⟨node, .sorted (.identity ["in", "name"])⟩

end Transition

namespace JsonSchema

open Transition

def schema : NodeId := ⟨1⟩

def schemaEnter : NodeId := ⟨2⟩

def mapSchema : NodeId := ⟨3⟩

def mapSchemaEnter : NodeId := ⟨4⟩

def mapStringSet : NodeId := ⟨5⟩

/-- The keywords of a schema. -/
def keywords : Table :=
  [("properties", plain mapSchema),
    ("$defs", plain mapSchema),
    ("definitions", plain mapSchema),
    ("patternProperties", plain mapSchema),
    ("dependentSchemas", plain mapSchema),
    ("dependentRequired", plain mapStringSet),
    ("default", plain .data),
    ("example", plain .data),
    ("const", plain .data),
    ("examples", values .data),
    ("discriminator", plain .data),
    ("xml", plain .data),
    ("externalDocs", plain .data),
    ("required", strings schema),
    ("type", strings schema),
    ("enum", values schema),
    ("allOf", values schema),
    ("anyOf", values schema),
    ("oneOf", values schema)]

/-- The data node and the nodes of schemas, by their numbers. -/
def nodes : List Node :=
  [.data,
    .schema .schema keywords schema,
    .schema .schemaEnter keywords schema,
    .map .mapSchema (plain schema),
    .map .mapSchemaEnter (plain schemaEnter),
    .map .mapStringSet (strings .data)]

/-- The root of a schema document. -/
def root : NodeId := ⟨6⟩

/-- The keywords at the root, where definitions are named entry points. -/
def rootKeywords : Table :=
  keywords ++ [("$defs", plain mapSchemaEnter), ("definitions", plain mapSchemaEnter)]

end JsonSchema

/-- The grammar of a document that is a schema. -/
def Grammar.jsonSchema : Grammar where
  nodes := JsonSchema.nodes ++ [.schema .schemaRoot JsonSchema.rootKeywords JsonSchema.schema]
  root := JsonSchema.root

end SchemaLoom
