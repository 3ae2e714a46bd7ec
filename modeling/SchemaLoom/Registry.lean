import SchemaLoom.Notice
import SchemaLoom.SortedMap
import SchemaLoom.Workspace.Basic

/-!
# The registry of documents

A registry holds the documents of workspaces by their identities.

- `Registry.lookup`: the document, or the part of it, that a reference points to.
- `Registered.ofReadings`: the registry of the documents that were read, and what was wrong.
- `Registered.notices`: what is told while it is made.
- `register`: the registry of the workspaces in some directories.

A document that states no identity gets the one its workspace gives it.  The first document with
an identity keeps it.  What is wrong with one document or one workspace concerns no other.
-/

namespace SchemaLoom

/-- The key that holds the identity of a document. -/
def idKey : String := "$id"

/-- A registered document and the file it was read from. -/
structure Entry where
  path : Path
  document : Document
deriving Repr

abbrev Registry := SortedMap Identity Entry

/-- The document, or the part of it, that a reference points to. -/
def Registry.lookup (r : Registry) (raw : String) : Option Document :=
  match Reference.kind ⟨raw⟩ with
  | .qualified identity fragment =>
    (r.get? identity).bind fun e =>
      match fragment with
      | some pointer => (Location.ofPointer pointer).resolve e.document
      | none => some e.document
  | _ => none

/-! ## Reading workspaces -/

/-- A document of a workspace: its file, the identity that the workspace gives it, and what reading
the file gave. -/
structure Source where
  path : Path
  given : Identity
  loaded : Except LoadError Document

namespace Source

/-- The identity of a document with the key that states it: the given one is added to a document
that states none. -/
def identify (path : Path) (given : Identity) (members : Members) :
    Except WorkspaceError (Identity × Document) :=
  match Members.get? idKey members with
  | none => .ok (given, .obj (Members.insert idKey (.str given.text) members))
  | some (.str text) =>
    match Identity.parse? text with
    | some identity => .ok (identity, .obj members)
    | none => .error (.invalidIdentity path text)
  | some d => .error (.invalidIdentity path d.text)

/-- The identity and the document of a source. -/
def identified (s : Source) : Except WorkspaceError (Identity × Document) :=
  match s.loaded with
  | .error e => .error (.load e)
  | .ok (.obj members) => identify s.path s.given members
  | .ok _ => .error (.notMapping s.path)

end Source

/-- What reading the workspace in a directory gave. -/
structure WorkspaceReading where
  dir : Path
  found : Except WorkspaceError (Workspace × List Source)

/-! ## Registration -/

/-- A registry and what went wrong while it was made. -/
structure Registered where
  registry : Registry
  errors : List WorkspaceError

namespace Registered

def empty : Registered := ⟨SortedMap.empty, []⟩

def fail (r : Registered) (e : WorkspaceError) : Registered :=
  { r with errors := r.errors ++ [e] }

/-- The identity and the document of a source, unless the identity is taken. -/
def admission (r : Registered) (s : Source) : Except WorkspaceError (Identity × Document) :=
  match s.identified with
  | .error e => .error e
  | .ok (identity, d) =>
    if r.registry.contains identity then .error (.duplicateIdentity s.path identity)
    else .ok (identity, d)

/-- The registry with one more document, unless its identity is wrong or taken. -/
def add (r : Registered) (s : Source) : Registered :=
  match r.admission s with
  | .error e => r.fail e
  | .ok (identity, d) => { r with registry := r.registry.insert identity ⟨s.path, d⟩ }

/-- The registry with the documents of one more workspace. -/
def addWorkspace (r : Registered) (w : WorkspaceReading) : Registered :=
  match w.found with
  | .error e => r.fail e
  | .ok (_, sources) => sources.foldl add r

/-- The registry of workspaces that were read. -/
def ofReadings (readings : List WorkspaceReading) : Registered :=
  readings.foldl addWorkspace empty

/-! ## Notices -/

/-- What is told of one more document. -/
def sourceNotices (r : Registered) (s : Source) : List Notice :=
  (if s.loaded.isOk then [.loaded s.path] else []) ++
    match r.admission s with
    | .error e => [.skippedDocument s.path e.message]
    | .ok (identity, _) => [.registered identity s.path]

/-- What is told of one more workspace.  A configuration that is wrong was loaded all the same. -/
def workspaceNotices (r : Registered) (w : WorkspaceReading) : List Notice :=
  match w.found with
  | .error e =>
    (match e with
      | .config path _ => [.loaded path]
      | _ => []) ++ [.skippedWorkspace w.dir e.message]
  | .ok (workspace, sources) =>
    .loaded workspace.config :: .openedWorkspace workspace.moduleName workspace.config ::
      Notice.along add sourceNotices r sources

/-- What is told while workspaces that were read are registered. -/
def notices (readings : List WorkspaceReading) : List Notice :=
  Notice.along addWorkspace workspaceNotices empty readings

end Registered

/-- The workspace in a directory and its documents. -/
def readWorkspace {m : Type → Type} [Monad m] (fs : FileSystem m) (scheme : String) (dir : Path) :
    m WorkspaceReading := do
  match ← Workspace.load fs dir with
  | .error e => return ⟨dir, .error e⟩
  | .ok w =>
    let sources ← (w.claims scheme).mapM fun c => return Source.mk c.1 c.2 (← load fs c.1)
    return ⟨dir, .ok (w, sources)⟩

/-- The workspaces in some directories. -/
def readWorkspaces {m : Type → Type} [Monad m] (fs : FileSystem m) (scheme : String)
    (dirs : List Path) : m (List WorkspaceReading) :=
  dirs.mapM (readWorkspace fs scheme)

/-- The registry of the workspaces in some directories. -/
def register {m : Type → Type} [Monad m] (fs : FileSystem m) (scheme : String) (dirs : List Path) :
    m Registered :=
  return .ofReadings (← readWorkspaces fs scheme dirs)

end SchemaLoom
