import SchemaLoom.Segments

/-!
# Paths

A path is its text.  It is never tidied: a path that was made of two others shows both of them.

## What is left out

Names that are not the text of characters.
-/

namespace SchemaLoom

/-- The path of a file or directory. -/
structure Path where
  text : String
deriving DecidableEq, Repr

namespace Path

/-- The segments of a path between its slashes. -/
def segments (p : Path) : List String :=
  (SchemaLoom.segments p.text.toList).map String.ofList

/-- Whether a path begins at the root of the file system. -/
def isAbsolute (p : Path) : Bool :=
  p.text.toList.head? == some '/'

/-- A path followed from another one.  An absolute path stands alone. -/
def join (p q : Path) : Path :=
  if q.isAbsolute || p.text.isEmpty then q
  else if p.text.toList.getLast? == some '/' then ⟨p.text ++ q.text⟩
  else ⟨p.text ++ "/" ++ q.text⟩

/-- The name that a path ends with.  Slashes and dots at its end do not count; the path to a parent
directory has no name. -/
def fileName? (p : Path) : Option String :=
  match (p.segments.filter fun s => s != "" && s != ".").getLast? with
  | some ".." => none
  | name => name

end Path

end SchemaLoom
