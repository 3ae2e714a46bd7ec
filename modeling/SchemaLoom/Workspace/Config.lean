import SchemaLoom.Document.Record
import SchemaLoom.FileSystem.Path
import SchemaLoom.Validation

/-!
# Workspace configurations

A configuration lists the resources of a workspace.  It must satisfy `configSchema`, and then it is
read as a record, in which every version is an integer that fits into 64 bits.

- `isConfigName`: the names of configuration files.
- `Resource.read`, `Resource.readAll`: the records of a configuration.
- `Resource.listOf?`: the resources of a configuration.

## What is left out

The documents under `asyncapi` and the conditions under `if` are read and kept.  Nothing registers the
ones or asks for the others.
-/

namespace SchemaLoom

/-- The names of configuration files. -/
def configNames : List String :=
  ["", "."].flatMap fun dot =>
    ["jsmnForge", "JsmnForge", "jsmn-forge"].flatMap fun stem =>
      [".yaml", ".yml"].map fun extension => dot ++ stem ++ extension

def isConfigName (name : String) : Bool :=
  configNames.contains name

/-- An entry of the list of resources, with its paths as they are written. -/
structure Resource where
  name : String
  version : Nat
  openapi : List Path
  asyncapi : List Path
  /-- The conditions under which the resource counts. -/
  conditions : List String
deriving DecidableEq, Repr

/-- Why a document is no configuration. -/
inductive ConfigFault where
  /-- It violates the schema. -/
  | invalid (errors : List SchemaError)
  /-- It satisfies the schema, but cannot be read. -/
  | malformed (fault : RecordFault)
deriving Repr

namespace Resource

/-- The resource of an entry. -/
def read (entry : Document) : Except RecordFault Resource := do
  let members ← Record.members "ResourceConfig" entry
  let name ← Record.required "name" (Record.string "a string") members
  let version ← Record.required "version" Record.word members
  let openapi ← Record.optional "openapi" (Record.list (Record.string "path string")) members
  let asyncapi ← Record.optional "asyncapi" (Record.list (Record.string "path string")) members
  let conditions ← Record.optional "if" (Record.list (Record.string "a string")) members
  return ⟨name, version, openapi.map Path.mk, asyncapi.map Path.mk, conditions⟩

/-- The resources of a configuration, read without a look at the schema. -/
def readAll (config : Document) : Except RecordFault (List Resource) := do
  let members ← Record.members "Config" config
  Record.required "resources" (Record.list read) members

/-- The resources of a configuration. -/
def listOf? (config : Document) : Except ConfigFault (List Resource) :=
  match validateConfig config with
  | [] => (readAll config).mapError .malformed
  | errors => .error (.invalid errors)

/-- A resource with its paths followed from a directory. -/
def under (root : Path) (r : Resource) : Resource :=
  { r with openapi := r.openapi.map root.join, asyncapi := r.asyncapi.map root.join }

end Resource

end SchemaLoom
