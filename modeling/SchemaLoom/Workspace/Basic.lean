import SchemaLoom.Workspace.Error

/-!
# Workspaces

A workspace is a directory with a configuration file.  Its module is named for the directory, up to
the first dot.

- `discover`: the configuration file of a directory.
- `Workspace.load`: the workspace of a directory.
- `Workspace.claims`: the documents of a workspace and the identities it gives them.
-/

namespace SchemaLoom

/-- The configuration file of a directory, if it has one; of several the first by name. -/
def discover {m : Type → Type} [Monad m] (fs : FileSystem m) (dir : Path) :
    m (Except WorkspaceError (Option Path)) := do
  match ← fs.names dir with
  | .error reason => return .error (.unreadableDirectory dir reason)
  | .ok names =>
    let candidates := (names.filter isConfigName).map fun name => dir.join ⟨name⟩
    let files ← candidates.filterM fs.isFile
    return .ok (files.mergeSort fun a b => a.text ≤ b.text).head?

structure Workspace where
  moduleName : String
  /-- The directory without links. -/
  root : Path
  config : Path
  /-- The resources, their paths followed from the root. -/
  resources : List Resource
deriving Repr

namespace Workspace

/-- The name of the module in a directory: the name of the directory as it was given, or that of the
root if the given path ends in none, up to the first dot. -/
def nameOf (given root : Path) : String :=
  let name := (given.fileName?.or root.fileName?).getD ""
  String.ofList (name.toList.takeWhile (· != '.'))

/-- The workspace with a configuration. -/
def ofConfig (given root config : Path) (d : Document) : Except WorkspaceError Workspace :=
  match Resource.listOf? d with
  | .ok resources => .ok ⟨nameOf given root, root, config, resources.map (Resource.under root)⟩
  | .error fault => .error (.config config fault)

/-- The workspace of a directory. -/
def load {m : Type → Type} [Monad m] (fs : FileSystem m) (dir : Path) :
    m (Except WorkspaceError Workspace) := do
  match ← fs.current with
  | .error reason => return .error (.unreadableDirectory dir reason)
  | .ok current =>
    match ← fs.canonical dir with
    | .error reason => return .error (.unreadableDirectory dir reason)
    | .ok root =>
      match ← discover fs root with
      | .error e => return .error e
      | .ok none => return .error (.missingConfig dir)
      | .ok (some config) =>
        match ← SchemaLoom.load fs config with
        | .error e => return .error (.load e)
        | .ok d => return ofConfig (current.join dir) root config d

/-- The identity that a workspace gives to the documents of a resource. -/
def identityOf (w : Workspace) (scheme : String) (r : Resource) : Identity :=
  ⟨scheme, w.moduleName, r.name, r.version⟩

/-- The paths of the documents of a workspace and the identities it gives them. -/
def claims (w : Workspace) (scheme : String) : List (Path × Identity) :=
  w.resources.flatMap fun r => r.openapi.map (·, w.identityOf scheme r)

end Workspace

end SchemaLoom
