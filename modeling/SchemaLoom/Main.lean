import SchemaLoom.CommandLine.Run

/-!
# The program

Asks the machine for what the command needs, prints the report and writes its file.
-/

namespace SchemaLoom

/-- The outcome of an action, or the reason why it failed. -/
def attempt (action : IO α) : IO (Except String α) := do
  match ← action.toBaseIO with
  | .ok a => return .ok a
  | .error e => return .error (toString e)

/-- The files of the machine. -/
def machine : FileSystem IO where
  holds p := return (← attempt (IO.FS.realPath p.text)).isOk
  isFile p := do
    let kind ← attempt do return (← (← IO.FS.realPath p.text).metadata).type
    match kind with
    | .ok .file => return true
    | _ => return false
  read p := do
    match ← attempt (IO.FS.readBinFile p.text) with
    | .error reason => return .error reason
    | .ok content =>
      match String.fromUTF8? content with
      | some text => return .ok text
      | none => return .error "the content is not valid UTF-8"
  names p := attempt do
    let entries ← (← IO.FS.realPath p.text).readDir
    return entries.toList.map fun e => e.fileName
  canonical p := attempt do return ⟨(← IO.FS.realPath p.text).toString⟩
  current := attempt do return ⟨(← IO.currentDir).toString⟩

/-- The report after its file was written, if it has one. -/
def written (r : CommandLine.Report) : IO CommandLine.Report := do
  match r.file with
  | none => return r
  | some (p, text) =>
    match ← attempt (IO.FS.writeFile p.text text) with
    | .ok _ => return r
    | .error reason => return r.unwritten reason

end SchemaLoom

def main (args : List String) : IO UInt32 := do
  let report ← SchemaLoom.written (← SchemaLoom.CommandLine.report SchemaLoom.machine args)
  IO.print report.stdout
  for line in report.errorOutput do
    IO.eprintln line
  return report.code.toUInt32
