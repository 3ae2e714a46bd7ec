import SchemaLoom.Loading
import SchemaLoom.Merge
import SchemaLoom.Normalization
import SchemaLoom.Notice

/-!
# Joining files

`join` normalizes the documents of files and merges them in order.  A file that could not be loaded
is an error and leaves out nothing but itself; a conflict is marked with the file that brought it.
`joinNotices` tells how it went.
-/

namespace SchemaLoom

/-- A conflict and the file whose document it came with. -/
structure JoinConflict where
  file : Path
  conflict : Conflict
deriving Repr

/-- What joining files gives. -/
structure Joined where
  /-- The merged document, if any file could be loaded. -/
  value : Option Document
  conflicts : List JoinConflict
  errors : List LoadError
deriving Repr

namespace Joined

def empty : Joined := ⟨none, [], []⟩

/-- Joined with the document of one more file. -/
def addDocument (g : Grammar) (file : Path) (d : Document) (j : Joined) : Joined :=
  match j.value with
  | none => { j with value := some d }
  | some value =>
    let m := merge g value d
    { j with
      value := some m.value
      conflicts := j.conflicts ++ m.conflicts.map (⟨file, ·⟩) }

/-- Joined with what loading one more file gave. -/
def add (g : Grammar) (scheme : Scheme) (j : Joined) (file : Path × Except LoadError Document) :
    Joined :=
  match file.2 with
  | .ok d => j.addDocument g file.1 (normalize g scheme d)
  | .error e => { j with errors := j.errors ++ [e] }

end Joined

/-- The documents of files joined in order. -/
def join (g : Grammar) (scheme : Scheme) (files : List (Path × Except LoadError Document)) :
    Joined :=
  files.foldl (Joined.add g scheme) .empty

/-- What is told of one more file. -/
def Joined.notices (g : Grammar) (scheme : Scheme) (j : Joined)
    (file : Path × Except LoadError Document) : List Notice :=
  match file.2 with
  | .error e => [.skippedDocument file.1 e.message]
  | .ok d =>
    let fresh := (j.add g scheme file).conflicts.drop j.conflicts.length
    .loaded file.1 :: (bareReferences g d).map .bareReference ++ .normalized file.1 ::
      (if j.value.isNone then []
       else fresh.map (fun c => .conflict c.file c.conflict.location) ++ [.merged file.1])

/-- What is told while the documents of files are joined. -/
def joinNotices (g : Grammar) (scheme : Scheme)
    (files : List (Path × Except LoadError Document)) : List Notice :=
  Notice.along (Joined.add g scheme) (Joined.notices g scheme) .empty files

/-- Files loaded in order. -/
def loadAll {m : Type → Type} [Monad m] (fs : FileSystem m) (paths : List Path) :
    m (List (Path × Except LoadError Document)) :=
  paths.mapM fun p => return (p, ← load fs p)

/-- Files loaded and joined in order. -/
def joinFiles {m : Type → Type} [Monad m] (fs : FileSystem m) (g : Grammar) (scheme : Scheme)
    (paths : List Path) : m Joined :=
  return join g scheme (← loadAll fs paths)

end SchemaLoom
