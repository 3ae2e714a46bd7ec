import SchemaLoom.FileSystem.Path
import SchemaLoom.Location
import SchemaLoom.Reference

/-!
# Notices

A notice tells of something on the way to an outcome.

- `Notice`: what can be told.
- `Notice.level`: warnings are always told, details only on demand.
- `Notice.line`: a notice as it is told.
- `Notice.along`: the notices of the steps of a fold.

## What is left out

The time at which a notice is told, and by which part of the program.
-/

namespace SchemaLoom

inductive Level where
  | warning
  | detail
deriving DecidableEq, Repr

inductive Notice where
  | loaded (path : Path)
  /-- A relative reference without a fragment, which stays as it is. -/
  | bareReference (reference : Reference)
  | normalized (path : Path)
  /-- A conflict that the document of a file brought. -/
  | conflict (path : Path) (location : Location)
  | merged (path : Path)
  | skippedDocument (path : Path) (reason : String)
  | openedWorkspace (moduleName : String) (config : Path)
  | skippedWorkspace (dir : Path) (reason : String)
  | registered (identity : Identity) (path : Path)
  /-- The counts of the structs and of the errors of a flattening. -/
  | flattened (structs errors : Nat)
deriving DecidableEq, Repr

namespace Notice

def level : Notice → Level
  | .bareReference _ => .warning
  | .conflict _ _ => .warning
  | .skippedDocument _ _ => .warning
  | .skippedWorkspace _ _ => .warning
  | _ => .detail

/-- Whether a notice is told, with or without details. -/
def isTold (details : Bool) (n : Notice) : Bool :=
  details || n.level = .warning

def text : Notice → String
  | .loaded _ => "loaded document"
  | .bareReference _ => "relative $ref without a fragment"
  | .normalized _ => "normalized document"
  | .conflict _ _ => "merge conflict"
  | .merged _ => "merged document"
  | .skippedDocument _ _ => "skipping document"
  | .openedWorkspace _ _ => "loaded workspace"
  | .skippedWorkspace _ _ => "skipping workspace"
  | .registered _ _ => "registered document"
  | .flattened _ _ => "flattened schemas"

/-- The names and values that follow the text. -/
def fields : Notice → List (String × String)
  | .loaded path => [("path", path.text)]
  | .bareReference reference => [("reference", reference.raw)]
  | .normalized path => [("path", path.text)]
  | .conflict path location => [("path", path.text), ("location", location.toPointer)]
  | .merged path => [("path", path.text)]
  | .skippedDocument path reason => [("path", path.text), ("error", reason)]
  | .openedWorkspace moduleName config => [("module", moduleName), ("config", config.text)]
  | .skippedWorkspace dir reason => [("dir", dir.text), ("error", reason)]
  | .registered identity path => [("id", identity.text), ("path", path.text)]
  | .flattened structs errors => [("structs", toString structs), ("errors", toString errors)]

/-- A text in one of a terminal's modes, which ends with it. -/
def styled (mode : Nat) (text : String) : String :=
  "\x1b[" ++ toString mode ++ "m" ++ text ++ "\x1b[0m"

/-- The level in its color, yellow or blue. -/
def levelLabel : Level → String
  | .warning => styled 33 " WARN"
  | .detail => styled 34 "DEBUG"

/-- A field: its name in italics, a faint sign and its value as it is, with its line breaks. -/
def field (f : String × String) : String :=
  styled 3 f.1 ++ styled 2 "=" ++ f.2

/-- The level, the text and the fields with spaces between them. -/
def line (n : Notice) : String :=
  " ".intercalate (levelLabel n.level :: n.text :: n.fields.map field)

/-- The notices of the steps of a fold, each told from the state before it. -/
def along (step : σ → α → σ) (tell : σ → α → List Notice) : σ → List α → List Notice
  | _, [] => []
  | s, x :: xs => tell s x ++ along step tell (step s x) xs

end Notice

end SchemaLoom
