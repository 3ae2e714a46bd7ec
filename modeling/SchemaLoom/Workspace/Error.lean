import SchemaLoom.Loading
import SchemaLoom.Reference
import SchemaLoom.Workspace.Config

/-!
# What can be wrong with a workspace

`WorkspaceError.message` is the text of an error and `WorkspaceError.exitCode` its exit code.
-/

namespace SchemaLoom

inductive WorkspaceError where
  | unreadableDirectory (dir : Path) (reason : String)
  | missingConfig (dir : Path)
  | load (error : LoadError)
  | config (path : Path) (fault : ConfigFault)
  | invalidIdentity (path : Path) (text : String)
  | duplicateIdentity (path : Path) (identity : Identity)
  | notMapping (path : Path)
deriving Repr

namespace WorkspaceError

/-- The error without what the system said about it. -/
def summary : WorkspaceError → String
  | .unreadableDirectory dir _ => "cannot read directory " ++ dir.text
  | .missingConfig dir => "no jsmn-forge config found in " ++ dir.text
  | .load e => e.summary
  | .config p (.invalid errors) =>
    "invalid config " ++ p.text ++ ": " ++ "; ".intercalate (errors.map SchemaError.message)
  | .config p (.malformed fault) => "malformed config " ++ p.text ++ ": " ++ fault.message
  | .invalidIdentity p text => "invalid $id \"" ++ text ++ "\" in " ++ p.text
  | .duplicateIdentity p identity => "duplicate $id \"" ++ identity.text ++ "\" in " ++ p.text
  | .notMapping p => "document " ++ p.text ++ " is not a mapping"

def message : WorkspaceError → String
  | .unreadableDirectory dir reason => summary (.unreadableDirectory dir reason) ++ ": " ++ reason
  | .load e => e.message
  | e => e.summary

/-- Directories and files that cannot be read have the exit code 3, all else 2. -/
def exitCode : WorkspaceError → Nat
  | .unreadableDirectory _ _ => 3
  | .missingConfig _ => 3
  | .load e => e.exitCode
  | _ => 2

end WorkspaceError

end SchemaLoom
