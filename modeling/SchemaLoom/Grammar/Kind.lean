/-!
# Kinds of places

Every place of a document has a kind, which names the object of the JSON Schema or OpenAPI
specifications that is expected there.

- `Kind`: the kinds, first those of schemas, then the objects of OpenAPI and the maps of them.
- `Kind.name`: the name by which a walk and a fault of a grammar tell a kind.
-/

namespace SchemaLoom

inductive Kind where
  /-- Free data, in which nothing is interpreted. -/
  | data
  | schema
  /-- A schema that has a name of its own. -/
  | schemaEnter
  | schemaRoot
  | mapSchema
  | mapSchemaEnter
  | mapStringSet
  | root
  | info
  | components
  | pathItem
  | operation
  | parameter
  | requestBody
  | response
  | mediaType
  | encoding
  | server
  | serverVar
  | link
  | mapPathItem
  | mapResponse
  | mapContent
  | mapHeader
  | mapEncoding
  | mapParameter
  | mapRequestBody
  | mapLink
  | mapCallback
  | mapServerVar
  | mapScope
deriving DecidableEq, Repr, Inhabited

namespace Kind

/-- The name of a kind. -/
def name : Kind → String
  | .data => "data"
  | .schema => "schema"
  | .schemaEnter => "schema_enter"
  | .schemaRoot => "schema_root"
  | .mapSchema => "map_schema"
  | .mapSchemaEnter => "map_schema_enter"
  | .mapStringSet => "map_string_set"
  | .root => "root"
  | .info => "info"
  | .components => "components"
  | .pathItem => "path_item"
  | .operation => "operation"
  | .parameter => "parameter"
  | .requestBody => "request_body"
  | .response => "response"
  | .mediaType => "media_type"
  | .encoding => "encoding"
  | .server => "server"
  | .serverVar => "server_var"
  | .link => "link"
  | .mapPathItem => "map_path_item"
  | .mapResponse => "map_response"
  | .mapContent => "map_content"
  | .mapHeader => "map_header"
  | .mapEncoding => "map_encoding"
  | .mapParameter => "map_parameter"
  | .mapRequestBody => "map_request_body"
  | .mapLink => "map_link"
  | .mapCallback => "map_callback"
  | .mapServerVar => "map_server_var"
  | .mapScope => "map_scope"

end Kind

end SchemaLoom
