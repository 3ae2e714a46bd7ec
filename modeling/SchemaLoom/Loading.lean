import SchemaLoom.FileSystem.Basic
import SchemaLoom.Yaml.Reader

/-!
# Loading documents

- `load`: the document of a file.
- `loadText`: the document of a text.
- `LoadError`: why there is none.

Every text is read as YAML, which JSON is a part of.  Why a text or a file cannot be read is told in
the words of `Yaml.Fault` and of the file system.
-/

namespace SchemaLoom

/-- Why a document could not be loaded. -/
inductive LoadError where
  | notFound (path : Path)
  | unreadable (path : Path) (reason : String)
  | invalidFile (path : Path) (fault : Yaml.Fault)
  | invalidText (fault : Yaml.Fault)
deriving DecidableEq, Repr

namespace LoadError

/-- The error without what it was caused by. -/
def summary : LoadError → String
  | .notFound p => "file not found: " ++ p.text
  | .unreadable p _ => "cannot read " ++ p.text
  | .invalidFile p _ => "invalid document " ++ p.text
  | .invalidText _ => "invalid document"

/-- What the error was caused by. -/
def cause? : LoadError → Option String
  | .notFound _ => none
  | .unreadable _ reason => some reason
  | .invalidFile _ fault => some fault.message
  | .invalidText fault => some fault.message

def message (e : LoadError) : String :=
  match e.cause? with
  | some cause => e.summary ++ ": " ++ cause
  | none => e.summary

/-- Files that cannot be read have the exit code 3, and texts that cannot be read 2. -/
def exitCode : LoadError → Nat
  | .notFound _ => 3
  | .unreadable _ _ => 3
  | .invalidFile _ _ => 2
  | .invalidText _ => 2

end LoadError

/-- The document of a text. -/
def loadText (text : String) : Except LoadError Document :=
  (Document.ofYaml text).mapError .invalidText

/-- The document of a file. -/
def load {m : Type → Type} [Monad m] (fs : FileSystem m) (p : Path) :
    m (Except LoadError Document) := do
  if ← fs.holds p then
    match ← fs.read p with
    | .error reason => return .error (.unreadable p reason)
    | .ok text => return (Document.ofYaml text).mapError (.invalidFile p)
  else return .error (.notFound p)

end SchemaLoom
