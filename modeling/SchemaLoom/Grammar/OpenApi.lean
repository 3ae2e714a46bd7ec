import SchemaLoom.Grammar.JsonSchema

/-!
# The grammar of OpenAPI 3.1

The objects of an OpenAPI document, with schemas inside them.  The entries of the schemas of the
components are the named entry points.

- `OpenApi.nodes`: its nodes after those of the schemas, by the numbers that they have.
- `Grammar.openApi`: the grammar of an OpenAPI document.
-/

namespace SchemaLoom

namespace OpenApi

open Transition

def root : NodeId := ⟨6⟩

def info : NodeId := ⟨7⟩

def components : NodeId := ⟨8⟩

def pathItem : NodeId := ⟨9⟩

def operation : NodeId := ⟨10⟩

def parameter : NodeId := ⟨11⟩

def requestBody : NodeId := ⟨12⟩

def response : NodeId := ⟨13⟩

def mediaType : NodeId := ⟨14⟩

def encoding : NodeId := ⟨15⟩

def server : NodeId := ⟨16⟩

def serverVar : NodeId := ⟨17⟩

def link : NodeId := ⟨18⟩

def mapPathItem : NodeId := ⟨19⟩

def mapResponse : NodeId := ⟨20⟩

def mapContent : NodeId := ⟨21⟩

def mapHeader : NodeId := ⟨22⟩

def mapEncoding : NodeId := ⟨23⟩

def mapParameter : NodeId := ⟨24⟩

def mapRequestBody : NodeId := ⟨25⟩

def mapLink : NodeId := ⟨26⟩

def mapCallback : NodeId := ⟨27⟩

def mapServerVar : NodeId := ⟨28⟩

def mapScope : NodeId := ⟨29⟩

def rootTable : Table :=
  [("info", plain info),
    ("paths", plain mapPathItem),
    ("webhooks", plain mapPathItem),
    ("components", plain components),
    ("servers", plain server),
    ("security", values mapScope)]

def componentsTable : Table :=
  [("schemas", plain JsonSchema.mapSchemaEnter),
    ("parameters", plain mapParameter),
    ("headers", plain mapHeader),
    ("requestBodies", plain mapRequestBody),
    ("responses", plain mapResponse),
    ("pathItems", plain mapPathItem),
    ("callbacks", plain mapCallback),
    ("links", plain mapLink)]

def pathItemTable : Table :=
  [("get", plain operation),
    ("put", plain operation),
    ("post", plain operation),
    ("delete", plain operation),
    ("options", plain operation),
    ("head", plain operation),
    ("patch", plain operation),
    ("trace", plain operation),
    ("parameters", parameters parameter),
    ("servers", plain server)]

def operationTable : Table :=
  [("requestBody", plain requestBody),
    ("responses", plain mapResponse),
    ("callbacks", plain mapCallback),
    ("parameters", parameters parameter),
    ("servers", plain server),
    ("security", values mapScope),
    ("tags", strings .data)]

/-- The nodes of the OpenAPI objects, by their numbers. -/
def nodes : List Node :=
  [.object .root rootTable,
    .object .info [],
    .object .components componentsTable,
    .object .pathItem pathItemTable,
    .object .operation operationTable,
    .object .parameter [("schema", plain JsonSchema.schema), ("content", plain mapContent)],
    .object .requestBody [("content", plain mapContent)],
    .object .response
      [("content", plain mapContent), ("headers", plain mapHeader), ("links", plain mapLink)],
    .object .mediaType [("schema", plain JsonSchema.schema), ("encoding", plain mapEncoding)],
    .object .encoding [("headers", plain mapHeader)],
    .object .server [("variables", plain mapServerVar)],
    .object .serverVar [("enum", strings .data)],
    .object .link [("server", plain server)],
    .map .mapPathItem (plain pathItem),
    .map .mapResponse (plain response),
    .map .mapContent (plain mediaType),
    .map .mapHeader (plain parameter),
    .map .mapEncoding (plain encoding),
    .map .mapParameter (plain parameter),
    .map .mapRequestBody (plain requestBody),
    .map .mapLink (plain link),
    .map .mapCallback (plain mapPathItem),
    .map .mapServerVar (plain serverVar),
    .map .mapScope (strings .data)]

end OpenApi

/-- The grammar of an OpenAPI document. -/
def Grammar.openApi : Grammar where
  nodes := JsonSchema.nodes ++ OpenApi.nodes
  root := OpenApi.root

end SchemaLoom
