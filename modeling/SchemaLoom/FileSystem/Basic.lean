import SchemaLoom.FileSystem.Path

/-!
# File systems

A `FileSystem` is what a program can ask about files.  The answers come in a monad: the outer layer
asks the machine, and statements about all file systems take the answers as they are, in `Id`.

## What is left out

Permissions, and files that change while a command runs.  A directory is read as a whole or not at
all.
-/

namespace SchemaLoom

/-- The questions about files.  Links are followed, and an answer that fails gives a reason. -/
structure FileSystem (m : Type → Type) where
  /-- Whether a path leads to anything. -/
  holds : Path → m Bool
  /-- Whether a path leads to a file. -/
  isFile : Path → m Bool
  /-- The text of a file. -/
  read : Path → m (Except String String)
  /-- The names in a directory, in any order. -/
  names : Path → m (Except String (List String))
  /-- The absolute path without links. -/
  canonical : Path → m (Except String Path)
  /-- The directory that other paths start from. -/
  current : m (Except String Path)

end SchemaLoom
