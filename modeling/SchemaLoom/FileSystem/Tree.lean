import SchemaLoom.FileSystem.Basic

/-!
# File trees

A `FileTree` is a file system as a value: its directories, files and links by their places.

- `FileTree.locate`: the place that a path leads to.
- `FileTree.fileSystem`: the answers that a tree gives.
- `FileTree.write`, `FileTree.link`, `FileTree.makeDirectories`, `FileTree.remove`: changes.
-/

namespace SchemaLoom

/-- The names that lead from the root of a tree to a place in it. -/
abbrev Place := List String

inductive FileNode where
  | directory
  | file (content : ByteArray)
  /-- A symbolic link to a path. -/
  | link (target : Path)

/-- The nodes of a file system by their places.  The root is always there. -/
structure FileTree where
  nodes : List (Place × FileNode)
  /-- The place that relative paths start from. -/
  current : Place

/-- Why a file cannot be used. -/
inductive FileFault where
  | notFound
  | isDirectory
  | notDirectory
  | tooManyLinks
  | nameTooLong
  | notText
deriving DecidableEq, Repr

/-- The text of a fault, with the number that systems give it. -/
def FileFault.message : FileFault → String
  | .notFound => "No such file or directory (os error 2)"
  | .notDirectory => "Not a directory (os error 20)"
  | .isDirectory => "Is a directory (os error 21)"
  | .nameTooLong => "File name too long (os error 36)"
  | .tooManyLinks => "Too many levels of symbolic links (os error 40)"
  | .notText => "stream did not contain valid UTF-8"

namespace FileTree

/-- The node at a place. -/
def node? (t : FileTree) (place : Place) : Option FileNode :=
  if place.isEmpty then some .directory else t.nodes.lookup place

def isDirectoryAt (t : FileTree) (place : Place) : Bool :=
  match t.node? place with
  | some .directory => true
  | _ => false

/-! ## Following paths -/

/-- The most links that are followed on one path. -/
def maxLinks : Nat := 40

/-- The longest name, in bytes. -/
def maxName : Nat := 255

/-- Where links to absolute and to relative paths start. -/
def origin (here : Place) (p : Path) : Place :=
  if p.isAbsolute then [] else here

/-- The place that is reached by some names from a place, following at most so many links.  Where
`fresh` says so the last name may be free. -/
def walk (t : FileTree) (fresh : Bool) : Nat → Place → List String → Except FileFault Place
  | _, here, [] => .ok here
  | links, here, name :: rest =>
    if !t.isDirectoryAt here then .error .notDirectory
    else if name = "" ∨ name = "." then walk t fresh links here rest
    else if name = ".." then walk t fresh links here.dropLast rest
    else if name.utf8ByteSize > maxName then .error .nameTooLong
    else
      match t.node? (here ++ [name]) with
      | some (.link target) =>
        match links with
        | 0 => .error .tooManyLinks
        | links + 1 => walk t fresh links (origin here target) (target.segments ++ rest)
      | some _ => walk t fresh links (here ++ [name]) rest
      | none => if fresh && rest.isEmpty then .ok (here ++ [name]) else .error .notFound
termination_by links _ names => (links, names.length)

/-- The place that a path leads to; `fresh` allows for a place that is free. -/
def placeOf (t : FileTree) (fresh : Bool) (p : Path) : Except FileFault Place :=
  if p.text.isEmpty then .error .notFound
  else t.walk fresh maxLinks (origin t.current p) p.segments

/-- The place of what is found at the end of a path. -/
def locate (t : FileTree) (p : Path) : Except FileFault Place :=
  t.placeOf false p

/-- What is found at the end of a path. -/
def find? (t : FileTree) (p : Path) : Option FileNode :=
  (t.locate p).toOption.bind t.node?

/-! ## Answers -/

/-- The absolute path of a place. -/
def pathOf (place : Place) : Path :=
  ⟨"/" ++ "/".intercalate place⟩

def isFile (t : FileTree) (p : Path) : Bool :=
  match t.find? p with
  | some (.file _) => true
  | _ => false

/-- The text of a file. -/
def read (t : FileTree) (p : Path) : Except FileFault String :=
  match t.locate p with
  | .error fault => .error fault
  | .ok place =>
    match t.node? place with
    | some (.file content) =>
      match String.fromUTF8? content with
      | some text => .ok text
      | none => .error .notText
    | some _ => .error .isDirectory
    | none => .error .notFound

/-- The names right below a place. -/
def namesAt (t : FileTree) (place : Place) : List String :=
  t.nodes.filterMap fun x =>
    if x.1.dropLast = place then x.1.getLast? else none

/-- The names in a directory. -/
def names (t : FileTree) (p : Path) : Except FileFault (List String) :=
  match t.locate p with
  | .ok place => if t.isDirectoryAt place then .ok (t.namesAt place) else .error .notDirectory
  | .error fault => .error fault

/-- The absolute path without links. -/
def canonical (t : FileTree) (p : Path) : Except FileFault Path :=
  (t.locate p).map pathOf

/-- A file tree as a file system. -/
def fileSystem (t : FileTree) : FileSystem Id where
  holds p := (t.locate p).isOk
  isFile p := t.isFile p
  read p := (t.read p).mapError FileFault.message
  names p := (t.names p).mapError FileFault.message
  canonical p := (t.canonical p).mapError FileFault.message
  current := .ok (pathOf t.current)

/-! ## Changes -/

/-- The tree with a node at a place, whatever was there. -/
def put (t : FileTree) (place : Place) (n : FileNode) : FileTree :=
  ⟨(place, n) :: t.nodes.filter (·.1 != place), t.current⟩

/-- A file written, through links, to a place in a directory that exists. -/
def write (t : FileTree) (p : Path) (content : ByteArray) : Except FileFault FileTree :=
  match t.placeOf true p with
  | .ok place =>
    if t.isDirectoryAt place then .error .isDirectory else .ok (t.put place (.file content))
  | .error fault => .error fault

/-- The directories along some names, made where they are missing. -/
def makeDirectoriesAt (t : FileTree) (here : Path) : List String → FileTree
  | [] => t
  | name :: rest =>
    let next := here.join ⟨name⟩
    let t := match t.placeOf true next with
      | .ok place => if (t.node? place).isNone then t.put place .directory else t
      | .error _ => t
    makeDirectoriesAt t next rest

/-- A directory and those above it, made where they are missing. -/
def makeDirectories (t : FileTree) (p : Path) : FileTree :=
  t.makeDirectoriesAt ⟨if p.isAbsolute then "/" else "."⟩ (p.segments.filter (· != ""))

/-- The directory that a path without its last name leads to, and the name. -/
def split? (t : FileTree) (p : Path) : Option (Place × String) :=
  match (p.segments.filter (· != "")).reverse with
  | [] => none
  | name :: above =>
    let parent := if p.isAbsolute then "/" ++ "/".intercalate above.reverse
      else "/".intercalate ("." :: above.reverse)
    (t.locate ⟨parent⟩).toOption.map (·, name)

/-- A link made in a directory that exists. -/
def link (t : FileTree) (p target : Path) : FileTree :=
  match t.split? p with
  | some (parent, name) => t.put (parent ++ [name]) (.link target)
  | none => t

/-- A tree without what a path names, a link itself rather than what it leads to. -/
def remove (t : FileTree) (p : Path) : FileTree :=
  match t.split? p with
  | some (parent, name) =>
    ⟨t.nodes.filter fun x => !(parent ++ [name]).isPrefixOf x.1, t.current⟩
  | none => t

end FileTree

end SchemaLoom
