import SchemaLoom.CommandLine.Report
import SchemaLoom.Difference
import SchemaLoom.Flattening
import SchemaLoom.Joining
import SchemaLoom.Registry

/-!
# Running commands

`Request.report` answers a request with the help of a file system, and `report` answers arguments.

The exit code is 0 when there is nothing to complain about, 1 when documents differ or schemas or
workspaces have errors, 2 for texts and arguments that cannot be read, and 3 for files.

## What is left out

The help is told in words of this library.  A document always has a text, so there is no report on
one that has none.
-/

namespace SchemaLoom.CommandLine

variable {m : Type → Type} [Monad m]

def programName : String := "jsmn-forge"

def programVersion : String := "0.1.0"

/-- The text of the help. -/
def helpText : String :=
  "Normalize, merge, diff and flatten OpenAPI / JSON Schema documents\n\n"
    ++ "Usage: " ++ programName ++ " [--verbose] COMMAND\n\n"
    ++ "Commands:\n"
    ++ "  normalize FILE     Normalize one document into canonical form\n"
    ++ "  join FILES         Normalize and merge documents, in order, into one\n"
    ++ "  diff LEFT RIGHT    Structurally compare two documents (exit 1 when they differ)\n"
    ++ "  flatten FILES      Lower named object schemas to structs (exit 1 on schema errors)\n"
    ++ "  discover DIRS      List every document registered by the given workspaces\n"

/-- The report on a file that could not be loaded. -/
def loadFailure (e : LoadError) : Report :=
  .silent e.exitCode [Report.errorLine e.message]

/-- The document of a file, or the report that there is none. -/
def loadOrReport (fs : FileSystem m) (p : Path) : m (Except Report Document) := do
  return (← load fs p).mapError loadFailure

/-! ## Reports on outcomes -/

def conflictLine (c : JoinConflict) : String :=
  "Conflict: " ++ c.file.text ++ " at " ++ c.conflict.location.toPointer ++ ": destination "
    ++ c.conflict.destination.text ++ ", source " ++ c.conflict.source.text

def joinReport (output : Output) (j : Joined) : Report :=
  let messages := j.conflicts.map conflictLine
    ++ j.errors.map fun e => Report.errorLine e.message
  let code := (j.errors.head?.map LoadError.exitCode).getD 0
  match j.value with
  | some d => .showing output d code messages
  | none => .silent code messages

def diffReport (output : Output) (d : Difference) : Report :=
  if d.entries.isEmpty then .silent 0 [] else .showing output d.document 1 []

def flattenReport (output : Output) (f : Flattened) : Report :=
  .showing output f.document (if f.isOk then 0 else 1)
    (f.errors.map fun e => Report.errorLine e.message)

/-- The documents of a registry as a document. -/
def listing (r : Registry) : Document :=
  .arr (r.entries.map fun e =>
    .obj [("id", .str e.1.text), ("path", .str e.2.path.text)])

def discoverReport (output : Output) (r : Registered) : Report :=
  .showing output (listing r.registry) (if r.errors.isEmpty then 0 else 1)
    (r.errors.map fun e => Report.errorLine e.message)

/-! ## Commands -/

/-- The documents of files, up to the first one that cannot be loaded. -/
def loadEach (fs : FileSystem m) : List Path → m (Except Report (List Document))
  | [] => return .ok []
  | p :: rest => do
    match ← loadOrReport fs p with
    | .error r => return .error r
    | .ok d =>
      match ← loadEach fs rest with
      | .error r => return .error (r.telling [.loaded p])
      | .ok ds => return .ok (d :: ds)

/-- What is told when a document is normalized. -/
def normalizing (reading : Reading) (d : Document) : List Notice :=
  (bareReferences reading.grammar d).map .bareReference

/-- The report of a command. -/
def runCommand (fs : FileSystem m) (output : Output) : Command → m Report
  | .normalize file reading => do
    match ← loadOrReport fs file with
    | .error r => return r
    | .ok d =>
      return Report.telling (.loaded file :: normalizing reading d)
        (.showing output (normalize reading.grammar reading.scheme d) 0 [])
  | .join files reading => do
    let loaded ← loadAll fs files
    return (joinReport output (join reading.grammar reading.scheme loaded)).telling
      (joinNotices reading.grammar reading.scheme loaded)
  | .diff left right normalized reading => do
    let form (d : Document) : Document :=
      if normalized then normalize reading.grammar reading.scheme d else d
    match ← loadOrReport fs left with
    | .error r => return r
    | .ok a =>
      match ← loadOrReport fs right with
      | .error r => return r.telling [.loaded left]
      | .ok b =>
        let adjusting := if normalized then normalizing reading a ++ normalizing reading b else []
        return (diffReport output (diff (form a) (form b))).telling
          (.loaded left :: .loaded right :: adjusting)
  | .flatten files reading => do
    match ← loadEach fs files with
    | .error r => return r
    | .ok ds =>
      let f := flatten reading.grammar ds
      return (flattenReport output f).telling
        (files.map .loaded ++ [.flattened f.structs.length f.errors.length])
  | .discover dirs scheme => do
    let readings ← readWorkspaces fs scheme dirs
    return (discoverReport output (.ofReadings readings)).telling (Registered.notices readings)

/-- The report that answers a request. -/
def Request.report (fs : FileSystem m) : Request → m Report
  | .usage => return .silent 2 [helpText]
  | .help => return ⟨0, helpText, [], [], none⟩
  | .version => return ⟨0, programName ++ " " ++ programVersion ++ "\n", [], [], none⟩
  | .run command output details => return (← runCommand fs output command).heard details

/-- The report on arguments that ask for nothing. -/
def UsageError.report (e : UsageError) : Report :=
  .silent 2 ["error: " ++ e.message ++ "\n\nFor more information, try '--help'."]

/-- The report that answers some arguments. -/
def report (fs : FileSystem m) (arguments : List String) : m Report :=
  match Request.ofArguments arguments with
  | .error e => return e.report
  | .ok request => request.report fs

end SchemaLoom.CommandLine
